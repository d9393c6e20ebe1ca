/-
Diagnostics: what a reader has to say about a source text.

A diagnostic has a severity, an optional code, a message, labelled spans of the
source and an optional hint.  A `Diagnostic.Collector` takes them in during a reading.
When the reading ends, one error among them makes it fail, and nothing that was emitted
is lost.
-/

import LadderLogic.Text.Span

namespace LadderLogic

/-- How grave a diagnostic is. -/
inductive Severity where
  | error
  | warning
deriving DecidableEq

/-- The word that opens a diagnostic of this severity. -/
def Severity.word : Severity → String
  | .error => "error"
  | .warning => "warning"

/-- What a diagnostic is about. -/
inductive DiagnosticCode where
  | malformedDocument
  | missingBody
  | missingIdentifier
  | repeatedIdentifier
  | missingReference
  | unknownReference
deriving DecidableEq

/-- The code as it is shown. -/
def DiagnosticCode.text : DiagnosticCode → String
  | .malformedDocument => "E001"
  | .missingBody => "E100"
  | .missingIdentifier => "E200"
  | .repeatedIdentifier => "E201"
  | .missingReference => "E202"
  | .unknownReference => "E203"

/-- All codes. -/
def DiagnosticCode.all : List DiagnosticCode :=
  [.malformedDocument, .missingBody, .missingIdentifier, .repeatedIdentifier, .missingReference,
    .unknownReference]

/-- The code that is shown as the given text. -/
def DiagnosticCode.ofText? (text : String) : Option DiagnosticCode :=
  all.find? (·.text == text)

/-- A span of the source with a remark.  The primary label marks the fault itself,
the others what it has to do with. -/
structure Label where
  span : Span
  message : String
  primary : Bool
deriving DecidableEq

/-- One remark about a source text. -/
structure Diagnostic where
  severity : Severity
  code : Option DiagnosticCode
  message : String
  labels : List Label
  help : Option String
deriving DecidableEq

namespace Diagnostic

/-- The diagnostic on one line. -/
def display (d : Diagnostic) : String :=
  let code := match d.code with
    | some c => "[" ++ c.text ++ "]"
    | none => ""
  d.severity.word ++ code ++ ": " ++ d.message

/-- The diagnostic makes a reading fail. -/
def isError (d : Diagnostic) : Bool := d.severity == .error

end Diagnostic

/-- A failed reading: everything that was noted about the source, in order. -/
structure ReadError where
  diagnostics : List Diagnostic
deriving DecidableEq

namespace ReadError

/-- The first diagnostic, and how many more there are. -/
def display (e : ReadError) : String :=
  match e.diagnostics with
  | [] => ""
  | [d] => d.display
  | d :: rest => d.display ++ " (+" ++ toString rest.length ++ " more)"

end ReadError

namespace Diagnostic

/-- The diagnostics emitted so far, and whether there is an error among them. -/
structure Collector where
  diagnostics : List Diagnostic
  hasErrors : Bool

namespace Collector

/-- Nothing has been emitted. -/
def empty : Collector := ⟨[], false⟩

/-- Takes a diagnostic in. -/
def emit (c : Collector) (d : Diagnostic) : Collector where
  diagnostics := c.diagnostics ++ [d]
  hasErrors := c.hasErrors || d.isError

/-- Ends a reading: the diagnostics are warnings, or there was an error and the reading
fails with all of them. -/
def finish (c : Collector) : Except ReadError (List Diagnostic) :=
  if c.hasErrors then .error ⟨c.diagnostics⟩ else .ok c.diagnostics

theorem foldl_emit (c : Collector) (emitted : List Diagnostic) :
    emitted.foldl emit c = ⟨c.diagnostics ++ emitted, c.hasErrors || emitted.any isError⟩ := by
  induction emitted generalizing c with
  | nil => simp
  | cons d emitted ih => simp [ih, emit, Bool.or_assoc]

/-- A reading fails exactly when an error was emitted, and keeps all diagnostics in order
either way. -/
theorem finish_foldl_emit (emitted : List Diagnostic) :
    (emitted.foldl emit empty).finish =
      if emitted.any isError then .error ⟨emitted⟩ else .ok emitted := by
  rw [foldl_emit, empty, finish, List.nil_append, Bool.false_or]

end Collector

end Diagnostic

end LadderLogic
