/-
Digits of numbers in bases up to sixteen.
-/

namespace LadderLogic.Digit

/-- A hexadecimal digit. -/
def isHex (c : Char) : Bool := c.isDigit || ('a' ≤ c && c ≤ 'f') || ('A' ≤ c && c ≤ 'F')

/-- The value of a digit. -/
def value (c : Char) : Nat :=
  if c.isDigit then c.toNat - '0'.toNat
  else if 'a' ≤ c then c.toNat - 'a'.toNat + 10
  else c.toNat - 'A'.toNat + 10

/-- The number that digits stand for, the first one leading. -/
def number (base : Nat) (digits : List Char) : Nat :=
  digits.foldl (fun n d => n * base + value d) 0

end LadderLogic.Digit
