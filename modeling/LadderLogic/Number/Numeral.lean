/-
Numbers as text.

Two ways of writing a float are in use.  `Numeral.display` is for drawings and
messages: digits without an exponent, and names for the values that have no
digits.  `Numeral.record` is for exported data: a point or an exponent always
shows that the number is a fraction, and a value without digits is left out as
`null`.  Both write the shortest digits that read back.
-/

import LadderLogic.Number.Shortest

namespace LadderLogic

/-- How a family of numbers is written. -/
structure NumeralStyle where
  /-- Which of two equally near decimals is written. -/
  tie : Tie
  /-- The decimal exponents, of the leading digit, that are written without an exponent. -/
  isPlain : Int → Bool
  /-- What follows the digits of a whole number. -/
  wholeTail : String
  nan : String
  infinite : Bool → String

namespace NumeralStyle

/-- Drawings and messages: never an exponent, never a point after a whole number. -/
def display : NumeralStyle where
  tie := .up
  isPlain _ := true
  wholeTail := ""
  nan := "NaN"
  infinite negative := if negative then "-inf" else "inf"

/-- Exported data: leading digits from the millionths to the million millions are
written in place, all others with a signed exponent. -/
def record : NumeralStyle where
  tie := .toEven
  isPlain e := -6 ≤ e && e ≤ 12
  wholeTail := ".0"
  nan := "null"
  infinite _ := "null"

end NumeralStyle

namespace Numeral

/-- The decimal digits of a count. -/
def digits (n : Nat) : List Char := Nat.toDigits 10 n

/-- A run of zeros. -/
def zeros (n : Nat) : List Char := List.replicate n '0'

/-- Digits with the point in its place. -/
def plain (wholeTail : String) (d : Decimal) : List Char :=
  let ds := digits d.digits
  let point : Int := ds.length + d.exponent
  if 0 ≤ d.exponent then
    ds ++ zeros d.exponent.toNat ++ wholeTail.toList
  else if 0 < point then
    ds.take point.toNat ++ '.' :: ds.drop point.toNat
  else
    '0' :: '.' :: (zeros (-point).toNat ++ ds)

/-- One digit before the point and a signed exponent. -/
def scientific (d : Decimal) : List Char :=
  let ds := digits d.digits
  let e : Int := ds.length + d.exponent - 1
  let fraction := if ds.length ≤ 1 then [] else '.' :: ds.drop 1
  let sign := if e < 0 then '-' else '+'
  ds.take 1 ++ fraction ++ 'e' :: sign :: digits e.natAbs

/-- A magnitude as text.  The decimal exponent of zero counts as zero. -/
def magnitude (style : NumeralStyle) (x : Binary) : List Char :=
  if x.significand = 0 then
    '0' :: style.wholeTail.toList
  else
    let d := x.shortest style.tie
    if style.isPlain ((digits d.digits).length + d.exponent - 1) then plain style.wholeTail d
    else scientific d

/-- A float as text. -/
def write (style : NumeralStyle) : FloatValue → List Char
  | .nan => style.nan.toList
  | .infinite negative => (style.infinite negative).toList
  | .finite negative x => (if negative then ['-'] else []) ++ magnitude style x

/-- The display text of a 32-bit float. -/
def display (x : Float32) : String :=
  String.ofList (write .display (.ofFloat32 x))

end Numeral

end LadderLogic
