/-
Decimal literals: sign, digits, fraction and exponent.
-/

import LadderLogic.Number.Digit

namespace LadderLogic

/-- A decimal literal, `± digits * 10 ^ exponent`. -/
structure Literal where
  negative : Bool
  digits : Nat
  exponent : Int
deriving DecidableEq

namespace Literal

/-- The literal with the given parts. -/
def ofParts (negative : Bool) (whole fraction : List Char) (exponent : Int) : Literal :=
  ⟨negative, Digit.number 10 (whole ++ fraction), exponent - fraction.length⟩

/-- The nearest 64-bit float, infinite beyond the largest one. -/
def toFloat (l : Literal) : Float :=
  let magnitude := if 0 ≤ l.exponent then Float.ofScientific l.digits false l.exponent.toNat
    else Float.ofScientific l.digits true (-l.exponent).toNat
  if l.negative then -magnitude else magnitude

end Literal

end LadderLogic
