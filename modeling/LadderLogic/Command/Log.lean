/-
What the command says while it works.
-/

import LadderLogic.Render

namespace LadderLogic.Command

/-- How much is said.  Each level says what the ones before it do, and more. -/
inductive LogLevel where
  | off
  | error
  | warn
  | info
  | debug
  | trace
deriving DecidableEq

namespace LogLevel

/-- All levels, from the quietest on. -/
def all : List LogLevel := [off, error, warn, info, debug, trace]

/-- The name of a level. -/
def name : LogLevel → String
  | off => "off"
  | error => "error"
  | warn => "warn"
  | info => "info"
  | debug => "debug"
  | trace => "trace"

/-- The level with a name, in small or capital letters. -/
def ofName? (name : String) : Option LogLevel := all.find? (·.name == name.toLower)

/-- The place of a level in their order. -/
def rank (level : LogLevel) : Nat := all.idxOf level

end LogLevel

/-- Something to say, at a level. -/
structure LogEntry where
  level : LogLevel
  text : String

/-- An entry is said at this level. -/
def LogEntry.isShown (filter : LogLevel) (entry : LogEntry) : Bool :=
  entry.level.rank ≤ filter.rank

/-- An entry as a line. -/
def LogEntry.line (entry : LogEntry) : String := "[" ++ entry.level.name ++ "] " ++ entry.text

/-- What is said about reading a source.  In lenient reading a source that cannot be read
is only warned of. -/
def readingEntries (strict : Bool) (source : String) : List LogEntry :=
  match Reading.ofSource source with
  | .ok reading =>
    reading.warnings.map fun d => ⟨if strict then .warn else .debug, d.display⟩
  | .error e => [⟨.warn, "No elements were read: " ++ e.display⟩]

/-- The text of an entry of a report. -/
def reportText (r : Report) : String :=
  (match r.code with
    | some code => code ++ ": " ++ r.message
    | none => r.message)
    ++ (match r.help with
    | some help => " (" ++ help ++ ")"
    | none => "")

/-- What is said about a failure. -/
def failureEntries (f : Failure) : List LogEntry := f.reports.map fun r => ⟨.error, reportText r⟩

end LadderLogic.Command
