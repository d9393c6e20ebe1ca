/-
The fewest decimal digits that read back to a binary number.

`Binary.decode` takes the bits of a float apart into a sign and either a special
value or `significand * 2 ^ exponent`.  The reals that round to such a value form
an interval, and `Binary.readsBack` tests a decimal against its two ends by exact
cross-multiplication.  `Binary.shortest` tries one digit, two digits, and so on:
on the first decimal grid with a point in the interval it takes the point nearest
to the value.
-/

namespace LadderLogic

/-- The widths of an interchange format: fraction field and exponent field. -/
structure BinaryFormat where
  fractionBits : Nat
  exponentBits : Nat
deriving DecidableEq

namespace BinaryFormat

/-- The 32-bit format. -/
def single : BinaryFormat := ⟨23, 8⟩

/-- The 64-bit format. -/
def double : BinaryFormat := ⟨52, 11⟩

/-- The exponent of the last place of the smallest values. -/
def lowestExponent (format : BinaryFormat) : Int :=
  2 - (Nat.pow 2 (format.exponentBits - 1) : Int) - format.fractionBits

end BinaryFormat

/-- A finite magnitude, `significand * 2 ^ exponent`. -/
structure Binary where
  significand : Nat
  exponent : Int
  /-- The gap to the value below is half the gap to the value above. -/
  narrowBelow : Bool
deriving DecidableEq

/-- What the bits of a float stand for. -/
inductive FloatValue where
  | nan
  | infinite (negative : Bool)
  | finite (negative : Bool) (magnitude : Binary)
deriving DecidableEq

/-- Takes the bits of a float apart. -/
def FloatValue.ofBits (format : BinaryFormat) (bits : Nat) : FloatValue :=
  let fraction := bits % Nat.pow 2 format.fractionBits
  let exponent := bits / Nat.pow 2 format.fractionBits % Nat.pow 2 format.exponentBits
  let negative := bits / Nat.pow 2 (format.fractionBits + format.exponentBits) % 2 == 1
  if exponent = Nat.pow 2 format.exponentBits - 1 then
    if fraction = 0 then .infinite negative else .nan
  else if exponent = 0 then
    .finite negative ⟨fraction, format.lowestExponent, false⟩
  else
    .finite negative
      ⟨Nat.pow 2 format.fractionBits + fraction, format.lowestExponent + (exponent - 1 : Nat),
        fraction == 0 && 1 < exponent⟩

/-- The value of a 32-bit float. -/
def FloatValue.ofFloat32 (x : Float32) : FloatValue := ofBits .single x.toBits.toNat

/-- The value of a 64-bit float. -/
def FloatValue.ofFloat (x : Float) : FloatValue := ofBits .double x.toBits.toNat

/-- A decimal magnitude, `digits * 10 ^ exponent`. -/
structure Decimal where
  digits : Nat
  exponent : Int
deriving DecidableEq

/-- Compares `a * 10 ^ i` with `b * 2 ^ j`, without rounding. -/
def compareScaled (a : Nat) (i : Int) (b : Nat) (j : Int) : Ordering :=
  compare (a * Nat.pow 10 i.toNat * Nat.pow 2 (-j).toNat)
    (b * Nat.pow 2 j.toNat * Nat.pow 10 (-i).toNat)

/-- Which of two equally near decimals is taken. -/
inductive Tie where
  | up
  | toEven
deriving DecidableEq

namespace Binary

/-- The decimal lies among the reals that round to the value.  The ends of that
interval belong to it exactly when the significand is even. -/
def readsBack (x : Binary) (d : Decimal) : Bool :=
  let low := if x.narrowBelow then 4 * x.significand - 1 else 4 * x.significand - 2
  let high := 4 * x.significand + 2
  let closed := x.significand % 2 == 0
  let atLow := compareScaled d.digits d.exponent low (x.exponent - 2)
  let atHigh := compareScaled d.digits d.exponent high (x.exponent - 2)
  (atLow == .gt || (closed && atLow == .eq)) && (atHigh == .lt || (closed && atHigh == .eq))

/-- The largest multiple of `10 ^ scale` that is not above the value, in units of
`10 ^ scale`. -/
def floorAt (x : Binary) (scale : Int) : Nat :=
  (x.significand * Nat.pow 2 x.exponent.toNat * Nat.pow 10 (-scale).toNat)
    / (Nat.pow 2 (-x.exponent).toNat * Nat.pow 10 scale.toNat)

/-- Compares the value with the midpoint of two neighbours on the grid of `10 ^ scale`. -/
def compareMidpoint (x : Binary) (below : Nat) (scale : Int) : Ordering :=
  (compareScaled (2 * below + 1) scale (2 * x.significand) x.exponent).swap

/-- The neighbour on the grid of `10 ^ scale` that reads back, if there is one.
Of two, the nearer one is taken, and `tie` settles an exact half. -/
def nearestAt (tie : Tie) (x : Binary) (scale : Int) : Option Decimal :=
  let below : Decimal := ⟨x.floorAt scale, scale⟩
  let above : Decimal := ⟨x.floorAt scale + 1, scale⟩
  match x.readsBack below, x.readsBack above with
  | false, false => none
  | true, false => some below
  | false, true => some above
  | true, true =>
    match x.compareMidpoint below.digits scale with
    | .lt => some below
    | .gt => some above
    | .eq =>
      match tie with
      | .up => some above
      | .toEven => if below.digits % 2 = 0 then some below else some above

/-- An upper bound on the decimal place of the leading digit: the value is below
`10 ^ leadingScale`. -/
def leadingScale (x : Binary) : Int :=
  let bits : Int := x.exponent + (x.significand.log2 + 1 : Nat)
  -- 0.302 is a little more than the decimal logarithm of 2, 0.301 a little less
  if 0 ≤ bits then bits * 302 / 1000 + 1 else bits * 301 / 1000 + 1

/-- The exact value, for a search that finds nothing shorter. -/
def exactDecimal (x : Binary) : Decimal :=
  if 0 ≤ x.exponent then ⟨x.significand * Nat.pow 2 x.exponent.toNat, 0⟩
  else ⟨x.significand * Nat.pow 5 (-x.exponent).toNat, x.exponent⟩

/-- The first grid, from `scale` downwards, with a point that reads back. -/
def search (tie : Tie) (x : Binary) (scale : Int) : Nat → Decimal
  | 0 => x.exactDecimal
  | steps + 1 => (x.nearestAt tie scale).getD (x.search tie (scale - 1) steps)

/-- Moves trailing zeros of the digits into the exponent. -/
def stripZeros (digits : Nat) (exponent : Int) : Decimal :=
  if h : digits ≠ 0 ∧ digits % 10 = 0 then stripZeros (digits / 10) (exponent + 1)
  else ⟨digits, exponent⟩
termination_by digits
decreasing_by omega

/-- The shortest decimal that reads back to the value, without trailing zeros.
Twenty grids are more than any 64-bit value needs. -/
def shortest (tie : Tie) (x : Binary) : Decimal :=
  let found := x.search tie x.leadingScale 20
  stripZeros found.digits found.exponent

end Binary

end LadderLogic
