/-
Diagrams as JSON.
-/

import LadderLogic.Diagram
import LadderLogic.Json.Value

namespace LadderLogic

open Json (Value)

/-- The record of a point. -/
def Point.toJson (p : Point Float32) : Value := .record [("x", .number p.x), ("y", .number p.y)]

/-- The name of a kind of segment. -/
def SegmentKind.name : SegmentKind → String
  | wire => "wire"
  | split => "split"
  | merge => "merge"

/-- The record of a segment. -/
def Segment.toJson (s : Segment Float32) : Value :=
  .record [("start", s.start.toJson), ("end", s.stop.toJson), ("kind", .string s.kind.name)]

/-- The name of a kind of symbol. -/
def GlyphKind.name : GlyphKind → String
  | contact => "contact"
  | coil => "coil"

/-- The record of a symbol. -/
def Glyph.toJson (g : Glyph Float32) : Value :=
  .record [("position", g.position.toJson), ("variable", .string g.operand),
    ("negated", .bool g.negated), ("kind", .string g.kind.name)]

/-- The record of a branch. -/
def BranchLine.toJson (l : BranchLine Float32) : Value :=
  .record [("y", .number l.y), ("glyphs", .array (l.glyphs.map Glyph.toJson)),
    ("wires", .array (l.wires.map Segment.toJson)), ("connectsToSplit", .bool l.connectsToSplit),
    ("connectsToMerge", .bool l.connectsToMerge)]

/-- The record of a vertical span. -/
def VerticalSpan.toJson (s : VerticalSpan Float32) : Value :=
  .record [("top", .number s.top), ("height", .number s.height)]

/-- The record of a rung. -/
def RungLayout.toJson (r : RungLayout Float32) : Value :=
  .record [("verticalSpan", r.span.toJson), ("coil", r.coil.toJson),
    ("branchLines", .array (r.lines.map BranchLine.toJson)),
    ("connectors", .array (r.connectors.map Segment.toJson))]

/-- The record of a diagram. -/
def Diagram.toJson (d : Diagram Float32) : Value :=
  .record [("width", .number d.width), ("height", .number d.height),
    ("rails", .array [.number d.left, .number d.right]),
    ("rungs", .array (d.rungs.map RungLayout.toJson))]

/-- The JSON text of a diagram. -/
def Diagram.json (d : Diagram Float32) : String := d.toJson.text

end LadderLogic
