/-
Running the command.

Settings are loaded and checked, the input is read, drawn, and the drawing is written; the
first of these that fails ends the run.  Nothing is written before the drawing is
complete.
-/

import LadderLogic.Command.Arguments
import LadderLogic.Command.Files
import LadderLogic.Command.Log
import LadderLogic.Settings.Decode
import LadderLogic.Toml.Document

namespace LadderLogic.Command

variable {m : Type → Type} [Monad m]

/-! ## Settings -/

/-- The settings in the text of a settings file. -/
def settingsOfText (text : String) : Except FileError (Settings Float32) :=
  match Toml.read? text with
  | none => .error .settingsMalformed
  | some datum =>
    match Settings.ofDatum .ignored datum with
    | .error _ => .error .settingsMalformed
    | .ok settings =>
      match settings.check with
      | .error fault => .error (.settingsRejected fault)
      | .ok () => .ok settings

/-- Reads a file as text. -/
def readText (files : FileAccess m) (path : String) : m (Except FileError String) := do
  match ← files.read path with
  | .error e => return .error e
  | .ok bytes =>
    match String.fromUTF8? bytes with
    | none => return .error .notText
    | some text => return .ok text

/-- Reads a settings file. -/
def readSettings (files : FileAccess m) (path : String) :
    m (Except FileError (Settings Float32)) := do
  if ← files.isPresent path then
    match ← readText files path with
    | .error e => return .error e
    | .ok text => return settingsOfText text
  else return .error (.settingsMissing path)

/-- The settings file beside the input. -/
def localSettings : String := "ladderview/config.toml"

/-- Where settings come from: the file that is asked for; else the local one, if there is
one; else the one of the platform, if there is one; else nowhere. -/
def settingsPath (files : FileAccess m) (platform config : Option String) :
    m (Option String) := do
  match config with
  | some path => return some path
  | none =>
    if ← files.isPresent localSettings then return some localSettings
    else
      match platform with
      | none => return none
      | some path => return if ← files.isPresent path then some path else none

/-- Loads the settings. -/
def loadSettings (files : FileAccess m) (platform config : Option String) :
    m (Except FileError (Settings Float32)) := do
  match ← settingsPath files platform config with
  | none => return .ok .standard
  | some path => readSettings files path

/-! ## Runs -/

/-- What a run has read and written. -/
structure Finished where
  source : String
  drawing : String

/-- The drawing that the arguments ask for. -/
def draw (args : Arguments) (settings : Settings Float32) (source : String) :
    Except Failure String :=
  if args.strict then renderStrict settings args.format source
  else render settings args.format source

/-- Runs the command. -/
def run (files : FileAccess m) (platform : Option String) (args : Arguments) :
    m (Except Failure Finished) := do
  match ← loadSettings files platform args.config with
  | .error e => return .error (.file e)
  | .ok settings =>
    match ← readText files args.input with
    | .error e => return .error (.file e)
    | .ok source =>
      match draw args settings source with
      | .error e => return .error e
      | .ok drawing =>
        match ← files.write args.output drawing.toUTF8 with
        | .error e => return .error (.file e)
        | .ok () => return .ok ⟨source, drawing⟩

/-! ## The whole command -/

/-- What the command leaves behind, apart from files. -/
structure Ending where
  exitCode : Nat
  /-- Lines for the standard output. -/
  output : List String
  /-- Lines for the standard error. -/
  errors : List String

/-- How the command is used. -/
def usage : List String :=
  ["Usage: ladderview [OPTIONS] <INPUT>", "",
    "Arguments:", "  <INPUT>  Path to the input file", "",
    "Options:",
    "  -o, --output <OUTPUT>        Path to the output file [default: out.svg]",
    "  -f, --format <FORMAT>        Output format (svg, json) [default: svg]",
    "  -c, --config <CONFIG>        Path to configuration file (TOML)",
    "      --strict                 Fail with diagnostics when the input cannot be read",
    "      --log-level <LOG_LEVEL>  off, error, warn, info, debug, trace [default: info]",
    "  -h, --help                   Print help",
    "  -V, --version                Print version"]

/-- The ending for arguments that do not ask for a drawing. -/
def ArgumentError.ending (e : ArgumentError) : Ending where
  exitCode := e.exitCode
  output :=
    match e with
    | .helpWanted => usage
    | .versionWanted => ["ladderview"]
    | _ => []
  errors := if e.isFault then ("error: " ++ e.kind) :: "" :: usage.take 1 else []

/-- The level that a name stands for.  Another name means `warn`, with a notice. -/
def logLevel (name : String) : LogLevel × List String :=
  match LogLevel.ofName? name with
  | some level => (level, [])
  | none => (.warn, ["Invalid log level: " ++ name ++ ". Using 'warn' instead."])

/-- What is said about a run. -/
def runEntries (args : Arguments) (result : Except Failure Finished) : List LogEntry :=
  ⟨.info, "Processing " ++ args.input⟩ ::
    match result with
    | .error f => failureEntries f
    | .ok finished =>
      readingEntries args.strict finished.source ++ [⟨.info, "Written to " ++ args.output⟩]

/-- The ending of a run. -/
def endingOf (args : Arguments) (result : Except Failure Finished) : Ending :=
  let (level, notice) := logLevel args.logLevel
  { exitCode := match result with
      | .ok _ => 0
      | .error _ => 1
    output := []
    errors :=
      notice ++ ((runEntries args result).filter (LogEntry.isShown level)).map LogEntry.line }

/-- Executes the command. -/
def execute (files : FileAccess m) (platform : Option String) (arguments : List String) :
    m Ending := do
  match Arguments.read arguments with
  | .error e => return e.ending
  | .ok args =>
    let result ← run files platform args
    return endingOf args result

end LadderLogic.Command
