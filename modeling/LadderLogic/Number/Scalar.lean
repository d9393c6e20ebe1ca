/-
The arithmetic that drawings are computed in.

A layout is a handful of sums, products and halvings, written once over a type
of scalars.  `Float32` is the arithmetic that runs, one rounding per operation
in the order the formulas are written; `Rat` reads the same formulas without
rounding, which is how statements about the geometry are made.
-/

namespace LadderLogic

/-- The operations a drawing is computed with.  No law is asked of them: rounded
arithmetic is an instance. -/
class Scalar (α : Type) extends Add α, Sub α, Mul α, Div α where
  /-- The scalar nearest to a count. -/
  ofNat : Nat → α
  /-- The larger of two scalars, the second when neither is larger. -/
  larger : α → α → α
  /-- Strictly smaller. -/
  lt : α → α → Bool
  /-- Neither infinite nor undefined. -/
  isFinite : α → Bool

namespace Scalar

variable {α : Type} [Scalar α]

/-- The number zero. -/
def zero : α := ofNat 0

/-- Half of a scalar. -/
def half (x : α) : α := x / ofNat 2

/-- The quotient of two counts, for the fixed proportions of a drawing. -/
def ratio (numerator denominator : Nat) : α := ofNat numerator / ofNat denominator

end Scalar

/-- Binary32 arithmetic.  An undefined operand of `larger` is passed over. -/
instance : Scalar Float32 where
  ofNat := Float32.ofNat
  larger a b := if b < a || b.isNaN then a else b
  lt a b := a < b
  isFinite := Float32.isFinite

/-- Exact arithmetic. -/
instance : Scalar Rat where
  ofNat n := n
  larger a b := if b < a then a else b
  lt a b := a < b
  isFinite _ := true

end LadderLogic
