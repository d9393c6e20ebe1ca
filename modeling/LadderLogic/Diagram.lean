/-
Diagrams: rungs with a place for everything that is drawn.

All coordinates are absolute, with `y` growing downwards.  A diagram is data only;
`Layout` computes one from rungs, and the exporters write one down.
-/

import LadderLogic.Number.Scalar
import LadderLogic.Rung

namespace LadderLogic

/-- A place on the page. -/
structure Point (α : Type) where
  x : α
  y : α
deriving DecidableEq

/-- What a segment stands for. -/
inductive SegmentKind where
  /-- A wire between rails, symbols and junctions. -/
  | wire
  /-- Where parallel branches part. -/
  | split
  /-- Where parallel branches come together. -/
  | merge
deriving DecidableEq

/-- A straight line between two points. -/
structure Segment (α : Type) where
  start : Point α
  stop : Point α
  kind : SegmentKind
deriving DecidableEq

namespace Segment

variable {α : Type}

/-- A level wire. -/
def wire (x₁ x₂ y : α) : Segment α := ⟨⟨x₁, y⟩, ⟨x₂, y⟩, .wire⟩

/-- An upright line. -/
def upright (x y₁ y₂ : α) (kind : SegmentKind) : Segment α := ⟨⟨x, y₁⟩, ⟨x, y₂⟩, kind⟩

/-- The distance between the ends, rounded once from the 64-bit distance.  An infinite
difference makes it infinite, whatever the other one is. -/
def length (s : Segment Float32) : Float32 :=
  let dx := s.stop.x - s.start.x
  let dy := s.stop.y - s.start.y
  if dx.isInf || dy.isInf then 1 / 0
  else (dx.toFloat * dx.toFloat + dy.toFloat * dy.toFloat).sqrt.toFloat32

end Segment

/-- The symbol drawn for an element. -/
inductive GlyphKind where
  | contact
  | coil
deriving DecidableEq

/-- Coils have a symbol of their own; everything else is drawn as a contact. -/
def GlyphKind.ofElement : ElementKind → GlyphKind
  | .coil => .coil
  | _ => .contact

/-- A symbol, placed by its centre. -/
structure Glyph (α : Type) where
  position : Point α
  operand : String
  negated : Bool
  kind : GlyphKind
deriving DecidableEq

/-- A branch of a rung, drawn on one level. -/
structure BranchLine (α : Type) where
  y : α
  glyphs : List (Glyph α)
  wires : List (Segment α)
  connectsToSplit : Bool
  connectsToMerge : Bool
deriving DecidableEq

/-- The band of the page that a rung takes up. -/
structure VerticalSpan (α : Type) where
  top : α
  height : α
deriving DecidableEq

namespace VerticalSpan

variable {α : Type} [Scalar α]

/-- The lower edge. -/
def bottom (s : VerticalSpan α) : α := s.top + s.height

/-- Halfway down. -/
def middle (s : VerticalSpan α) : α := s.top + Scalar.half s.height

end VerticalSpan

/-- A rung with everything in its place. -/
structure RungLayout (α : Type) where
  span : VerticalSpan α
  coil : Glyph α
  lines : List (BranchLine α)
  connectors : List (Segment α)
deriving DecidableEq

/-- A page of rungs between two rails. -/
structure Diagram (α : Type) where
  width : α
  height : α
  left : α
  right : α
  rungs : List (RungLayout α)
deriving DecidableEq

/-- There is nothing between the rails. -/
def Diagram.isEmpty {α : Type} (d : Diagram α) : Bool := d.rungs.isEmpty

end LadderLogic
