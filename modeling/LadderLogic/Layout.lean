/-
Placing rungs between two rails.

The page is as wide as asked, or wider if the longest branch needs it.  Rungs follow
each other from the top; within a rung the branches lie at equal distances around the
middle, where the coil is.  The formulas are written once for any `Scalar`, and every
operation in them is one rounding of the scalar.
-/

import LadderLogic.Diagram

namespace LadderLogic

/-- The sizes that a layout goes by. -/
structure LayoutSettings (α : Type) where
  /-- The room for one symbol along a branch. -/
  elementWidth : α
  /-- The distance between parallel branches. -/
  branchSpacing : α
  /-- The distance between rungs. -/
  rungSpacing : α
  /-- The margin of the page. -/
  padding : α
  /-- The least width of the page. -/
  viewportWidth : α
  /-- The width of a symbol. -/
  symbolWidth : α
deriving DecidableEq

namespace Layout

variable {α : Type} [Scalar α]

open Scalar (ofNat half zero ratio)

/-! ## One rung -/

/-- The two rails of a page, and the sizes of what goes between them. -/
structure Frame (α : Type) where
  settings : LayoutSettings α
  left : α
  right : α

namespace Frame

/-- The height of a rung.  A rung without branches takes the room of one. -/
def rungHeight (f : Frame α) (branches : Nat) : α :=
  ofNat (max branches 1) * f.settings.branchSpacing + f.settings.rungSpacing

/-- Where parallel branches part. -/
def splitX (f : Frame α) : α := f.left + half f.settings.elementWidth

/-- Where branches end before the coil. -/
def mergeX (f : Frame α) : α := f.right - f.settings.elementWidth

/-- Where the coil is. -/
def coilX (f : Frame α) : α := f.right - half f.settings.elementWidth

/-- Where the contact at a place on its branch is. -/
def contactX (f : Frame α) (index : Nat) : α :=
  f.left + f.settings.elementWidth * (ofNat index + ofNat 1)

/-- Half the width of a symbol. -/
def halfSymbol (f : Frame α) : α := half f.settings.symbolWidth

/-- The symbols of a branch on the given level. -/
def glyphs (f : Frame α) (branch : Branch) (y : α) : List (Glyph α) :=
  branch.mapIdx fun index contact =>
    ⟨⟨f.contactX index, y⟩, contact.operand, contact.negated, .ofElement contact.kind⟩

/-- The wires from `x` through the given symbols to where the branches end. -/
def wires (f : Frame α) (y : α) : α → List (Glyph α) → List (Segment α)
  | x, [] => [.wire x f.mergeX y]
  | x, glyph :: rest =>
    .wire x (glyph.position.x - f.halfSymbol) y ::
      f.wires y (glyph.position.x + f.halfSymbol) rest

/-- A branch on the given level. -/
def branchLine (f : Frame α) (parallel : Bool) (branch : Branch) (y : α) : BranchLine α :=
  let glyphs := f.glyphs branch y
  ⟨y, glyphs, f.wires y f.left glyphs, parallel, parallel⟩

/-- How many branch distances the first of some branches lies above the middle. -/
def firstOffset (branches : Nat) : α :=
  if branches = 0 then zero else ofNat (branches - 1) / ofNat 2

/-- The level of a branch among some branches around the middle. -/
def branchY (f : Frame α) (middle : α) (branches index : Nat) : α :=
  middle + (ofNat index - firstOffset branches) * f.settings.branchSpacing

/-- What joins the branches to each other, to the coil and to the right rail. -/
def connectors (f : Frame α) (lines : List (BranchLine α)) (coil : Glyph α) (middle : α) :
    List (Segment α) :=
  let junctions := match lines with
    | first :: second :: rest =>
      let last := (second :: rest).getLast (List.cons_ne_nil _ _)
      [.upright f.splitX first.y last.y .split, .upright f.mergeX first.y last.y .merge]
    | _ => []
  let feed := if lines.isEmpty then []
    else [.wire f.mergeX (coil.position.x - f.halfSymbol) middle]
  junctions ++ feed ++ [.wire (coil.position.x + f.halfSymbol) f.right middle]

/-- Places a rung below the given height. -/
def place (f : Frame α) (rung : Rung) (top : α) : RungLayout α :=
  let count := rung.branches.length
  let span : VerticalSpan α := ⟨top, f.rungHeight count⟩
  let middle := span.middle
  let lines := rung.branches.mapIdx fun index branch =>
    f.branchLine (1 < count) branch (f.branchY middle count index)
  let coil : Glyph α := ⟨⟨f.coilX, middle⟩, rung.operand, rung.negated, .coil⟩
  ⟨span, coil, lines, f.connectors lines coil middle⟩

/-- Places rungs below each other: the rungs, and the height that they end at. -/
def placeAll (f : Frame α) (top : α) : List Rung → List (RungLayout α) × α
  | [] => ([], top)
  | rung :: rest =>
    let placed := f.place rung top
    let (below, bottom) := f.placeAll placed.span.bottom rest
    (placed :: below, bottom)

end Frame

/-! ## The page -/

/-- The length of the longest branch of any rung. -/
def longestBranch (rungs : List Rung) : Nat := (rungs.map Rung.longest).max?.getD 0

/-- The width of the page: margins, room for the longest branch, and a slot and a half for
the junctions and the coil. -/
def pageWidth (settings : LayoutSettings α) (rungs : List Rung) : α :=
  let content := ofNat 2 * settings.padding
    + settings.elementWidth * (ofNat (longestBranch rungs) + ratio 3 2)
  Scalar.larger settings.viewportWidth content

/-- The frame that the rungs of a page are placed in: the rails stand at the margins. -/
def pageFrame (settings : LayoutSettings α) (rungs : List Rung) : Frame α :=
  ⟨settings, settings.padding, pageWidth settings rungs - settings.padding⟩

end Layout

/-- Lays out rungs. -/
def Diagram.ofRungs {α : Type} [Scalar α] (settings : LayoutSettings α) (rungs : List Rung) :
    Diagram α :=
  let frame := Layout.pageFrame settings rungs
  let (placed, bottom) := frame.placeAll settings.padding rungs
  ⟨Layout.pageWidth settings rungs, bottom + settings.padding, frame.left, frame.right, placed⟩

end LadderLogic
