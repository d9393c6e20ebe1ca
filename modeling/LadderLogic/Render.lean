/-
From a source to a drawing.

A source is read, its rungs are rebuilt and laid out, and the diagram is written in one of
two formats.  Rendering is lenient: a source with errors is drawn as a program without
elements.  The strict way fails instead.
-/

import LadderLogic.Failure
import LadderLogic.Json.Export
import LadderLogic.Layout
import LadderLogic.Reading

namespace LadderLogic

/-! ## Formats -/

/-- What a drawing is written as. -/
inductive OutputFormat where
  | svg
  | json
deriving DecidableEq

/-- The text is not the name of a format. -/
structure UnknownFormat where
  name : String
deriving DecidableEq

/-- The wording for an unknown format. -/
def UnknownFormat.message (e : UnknownFormat) : String :=
  "unknown output format `" ++ e.name ++ "` (expected `svg` or `json`)"

namespace OutputFormat

/-- The name of a format. -/
def name : OutputFormat → String
  | svg => "svg"
  | json => "json"

/-- The format with a name, in small or capital letters. -/
def ofName (name : String) : Except UnknownFormat OutputFormat :=
  match name.toLower with
  | "svg" => .ok svg
  | "json" => .ok json
  | _ => .error ⟨name⟩

end OutputFormat

/-! ## Diagrams -/

/-- The SVG text of a diagram, with symbols of the given width. -/
def Diagram.svg (style : StyleSettings Float32) (symbolWidth : Float32) (d : Diagram Float32) :
    Except ExportError String :=
  match Svg.Pen.ofStyle style symbolWidth with
  | .error fault => .error (.render fault)
  | .ok pen => .ok (pen.draw d).document

/-- The text of a diagram in a format. -/
def Diagram.write (settings : Settings Float32) (format : OutputFormat) (d : Diagram Float32) :
    Except ExportError String :=
  match format with
  | .svg => d.svg settings.style settings.layout.symbolWidth
  | .json => .ok d.json

/-! ## Sources -/

/-- The diagram of the elements of a program. -/
def ElementMap.diagram (settings : Settings Float32) (m : ElementMap) : Diagram Float32 :=
  Diagram.ofRungs settings.layout m.rungs

/-- The drawing of the elements of a program. -/
def ElementMap.render (settings : Settings Float32) (format : OutputFormat) (m : ElementMap) :
    Except Failure String :=
  match (m.diagram settings).write settings format with
  | .error e => .error (.exporting e)
  | .ok text => .ok text

/-- Reads a source, and fails if it has errors. -/
def Reading.strict (source : String) : Except Failure Reading :=
  match Reading.ofSource source with
  | .error e => .error (.reading e source)
  | .ok reading => .ok reading

/-- The drawing of a source; one with errors is drawn without elements. -/
def render (settings : Settings Float32) (format : OutputFormat) (source : String) :
    Except Failure String :=
  (Reading.elementsOf source).render settings format

/-- The drawing of a source without errors. -/
def renderStrict (settings : Settings Float32) (format : OutputFormat) (source : String) :
    Except Failure String :=
  match Reading.strict source with
  | .error e => .error e
  | .ok reading => reading.elements.render settings format

end LadderLogic
