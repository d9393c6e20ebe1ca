/-
Drawing a diagram as an SVG document.

Every wire, connector and symbol of the diagram is drawn once, where the diagram puts it,
in the order in which the diagram lists it.  Attributes are listed by name.
-/

import LadderLogic.Diagram
import LadderLogic.Settings.Check
import LadderLogic.Svg.Node

namespace LadderLogic.Svg

open Scalar (half ratio)

/-! ## Pens -/

/-- A color to draw with. -/
structure Paint where
  color : String
  opacity : String
deriving DecidableEq

/-- The paint for a color. -/
def Paint.ofColor (c : Color) : Paint := ⟨c.display, Numeral.display c.alpha⟩

/-- What a diagram is drawn with. -/
structure Pen (α : Type) where
  background : Option Paint
  stroke : Paint
  strokeWidth : α
  fontSize : α
  /-- The width of symbols, which should be the one of the layout: wires end there. -/
  symbolWidth : α
deriving DecidableEq

/-- Why a diagram is not drawn. -/
inductive RenderFault where
  | background (error : InvalidColor)
  | stroke (error : InvalidColor)
  | other (message : String)
deriving DecidableEq

/-- The wording of a fault. -/
def RenderFault.message : RenderFault → String
  | background e => e.asBackground
  | stroke e => e.asStroke
  | other message => message

/-- The pen for a style.  Its colors have to be colors, the background first. -/
def Pen.ofStyle {α : Type} (style : StyleSettings α) (symbolWidth : α) :
    Except RenderFault (Pen α) :=
  match style.backgroundColor with
  | .error e => .error (.background e)
  | .ok background =>
    match style.strokeColor with
    | .error e => .error (.stroke e)
    | .ok stroke =>
      .ok ⟨background.map Paint.ofColor, Paint.ofColor stroke, style.strokeWidth, style.fontSize,
        symbolWidth⟩

/-! ## Elements -/

section Elements

variable {α : Type}

/-- A line between two points. -/
def line (start stop : Point α) : Node α :=
  .element "line" [⟨"x1", .number start.x⟩, ⟨"x2", .number stop.x⟩, ⟨"y1", .number start.y⟩,
    ⟨"y2", .number stop.y⟩] []

/-- A path. -/
def path (steps : List (PathStep α)) : Node α := .element "path" [⟨"d", .path steps⟩] []

/-- A group of nodes, with a name for its kind. -/
def group (kind : String) (children : List (Node α)) : Node α :=
  .element "g" [⟨"class", .text kind⟩] children

/-- The line of a segment. -/
def segment (s : Segment α) : Node α := line s.start s.stop

end Elements

/-! ## Symbols -/

section Symbols

variable {α : Type} [Scalar α]

/-- The sides of a contact, and a slash from side to side when it is negated. -/
def contactLines (p : Point α) (half : α) (negated : Bool) : List (Node α) :=
  let reach := half * ratio 4 5
  let slant := half * ratio 3 5
  [line ⟨p.x - half, p.y - reach⟩ ⟨p.x - half, p.y + reach⟩,
    line ⟨p.x + half, p.y - reach⟩ ⟨p.x + half, p.y + reach⟩]
    ++ if negated then [line ⟨p.x - slant, p.y + reach⟩ ⟨p.x + slant, p.y - reach⟩] else []

/-- The two arcs of a coil, bowed outwards. -/
def coilPath (p : Point α) (half : α) : List (PathStep α) :=
  [.move ⟨p.x - half, p.y - half⟩, .arc half false ⟨p.x - half, p.y + half⟩,
    .move ⟨p.x + half, p.y - half⟩, .arc half true ⟨p.x + half, p.y + half⟩]

/-- The arcs of a coil, and a slash between them when it is negated. -/
def coilLines (p : Point α) (half : α) (negated : Bool) : List (Node α) :=
  let slant := half * ratio 2 5
  let rise := half * ratio 7 10
  path (coilPath p half)
    :: if negated then [line ⟨p.x - slant, p.y + rise⟩ ⟨p.x + slant, p.y - rise⟩] else []

/-- The distance of a label from its symbol. -/
def labelGap : α := Scalar.ofNat 4

namespace Pen

/-- The operand of a symbol, written above it. -/
def label (pen : Pen α) (g : Glyph α) : Node α :=
  .element "text" [⟨"fill", .text pen.stroke.color⟩, ⟨"fill-opacity", .text pen.stroke.opacity⟩,
    ⟨"font-family", .text "sans-serif"⟩, ⟨"font-size", .number pen.fontSize⟩,
    ⟨"stroke", .text "none"⟩, ⟨"text-anchor", .text "middle"⟩, ⟨"x", .number g.position.x⟩,
    ⟨"y", .number (g.position.y - half pen.symbolWidth - labelGap)⟩] [.text g.operand]

/-- A symbol with its label. -/
def glyph (pen : Pen α) (g : Glyph α) : Node α :=
  match g.kind with
  | .contact =>
    group "contact" (contactLines g.position (half pen.symbolWidth) g.negated ++ [pen.label g])
  | .coil => group "coil" (coilLines g.position (half pen.symbolWidth) g.negated ++ [pen.label g])

/-! ## Diagrams -/

/-- A branch: its wires, then its symbols. -/
def branch (pen : Pen α) (l : BranchLine α) : List (Node α) :=
  l.wires.map segment ++ l.glyphs.map pen.glyph

/-- A rung: its branches, its connectors, and its coil. -/
def rung (pen : Pen α) (r : RungLayout α) : Node α :=
  group "rung" (r.lines.flatMap pen.branch ++ r.connectors.map segment ++ [pen.glyph r.coil])

/-- A rail over the whole height of a diagram. -/
def rail (height x : α) : Node α := line ⟨x, Scalar.zero⟩ ⟨x, height⟩

/-- The rails and the rungs of a diagram. -/
def ladder (pen : Pen α) (d : Diagram α) : Node α :=
  .element "g" [⟨"fill", .text "none"⟩, ⟨"stroke", .text pen.stroke.color⟩,
    ⟨"stroke-opacity", .text pen.stroke.opacity⟩, ⟨"stroke-width", .number pen.strokeWidth⟩]
    (rail d.height d.left :: rail d.height d.right :: d.rungs.map pen.rung)

/-- What stands in the middle of a page without rungs. -/
def placeholder (pen : Pen α) (d : Diagram α) : Node α :=
  .element "text" [⟨"dominant-baseline", .text "central"⟩, ⟨"fill", .text pen.stroke.color⟩,
    ⟨"font-family", .text "sans-serif"⟩, ⟨"font-size", .number pen.fontSize⟩,
    ⟨"text-anchor", .text "middle"⟩, ⟨"x", .number (half d.width)⟩, ⟨"y", .number (half d.height)⟩]
    [.text "Ladder diagram will be rendered here."]

/-- A rectangle over the whole page. -/
def backdrop (d : Diagram α) (paint : Paint) : Node α :=
  .element "rect" [⟨"fill", .text paint.color⟩, ⟨"fill-opacity", .text paint.opacity⟩,
    ⟨"height", .number d.height⟩, ⟨"width", .number d.width⟩, ⟨"x", .number Scalar.zero⟩,
    ⟨"y", .number Scalar.zero⟩] []

/-- What is drawn of a diagram: a background if there is one, then the ladder. -/
def content (pen : Pen α) (d : Diagram α) : List (Node α) :=
  (pen.background.map (backdrop d)).toList
    ++ [if d.isEmpty then pen.placeholder d else pen.ladder d]

/-- The document that shows a diagram. -/
def draw (pen : Pen α) (d : Diagram α) : Node α :=
  .element "svg" [⟨"height", .number d.height⟩,
    ⟨"viewBox", .numbers [Scalar.zero, Scalar.zero, d.width, d.height]⟩,
    ⟨"width", .number d.width⟩, ⟨"xmlns", .text "http://www.w3.org/2000/svg"⟩] (pen.content d)

end Pen

end Symbols

end LadderLogic.Svg
