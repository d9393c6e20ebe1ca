/-
The arguments of the command.

Arguments are read one after another.  An option whose value is an argument of its own is
kept back until the next argument is known to make sense; only then is the option looked
at, and so an argument that makes no sense comes before a fault in the option ahead of it.
-/

import LadderLogic.Render

namespace LadderLogic.Command

/-! ## Arguments and errors -/

/-- What the command is asked to do. -/
structure Arguments where
  input : String
  output : String
  format : OutputFormat
  /-- The settings file. -/
  config : Option String
  strict : Bool
  logLevel : String
deriving DecidableEq

/-- Why the arguments do not ask for a drawing. -/
inductive ArgumentError where
  | missingValue
  | badFormat
  | unneededValue
  | repeated
  | unknown
  | missingInput
  | helpWanted
  | versionWanted
deriving DecidableEq

namespace ArgumentError

/-- The name of the kind of error. -/
def kind : ArgumentError → String
  | missingValue => "InvalidValue"
  | badFormat => "ValueValidation"
  | unneededValue => "TooManyValues"
  | repeated => "ArgumentConflict"
  | unknown => "UnknownArgument"
  | missingInput => "MissingRequiredArgument"
  | helpWanted => "DisplayHelp"
  | versionWanted => "DisplayVersion"

/-- Help and version are no faults. -/
def isFault : ArgumentError → Bool
  | helpWanted => false
  | versionWanted => false
  | _ => true

/-- The exit code of the command. -/
def exitCode (e : ArgumentError) : Nat := if e.isFault then 2 else 0

end ArgumentError

/-! ## Options -/

/-- An option that takes a value. -/
inductive ValueOption where
  | output
  | format
  | config
  | logLevel
deriving DecidableEq

/-- An option without a value. -/
inductive Switch where
  | strict
  | help
  | version
deriving DecidableEq

/-- Any option. -/
inductive AnyOption where
  | value (o : ValueOption)
  | switch (s : Switch)
deriving DecidableEq

/-- The option with a name, written behind two dashes. -/
def AnyOption.ofName? : String → Option AnyOption
  | "output" => some (.value .output)
  | "format" => some (.value .format)
  | "config" => some (.value .config)
  | "log-level" => some (.value .logLevel)
  | "strict" => some (.switch .strict)
  | "help" => some (.switch .help)
  | "version" => some (.switch .version)
  | _ => none

/-- The option with a letter, written behind one dash. -/
def AnyOption.ofLetter? : Char → Option AnyOption
  | 'o' => some (.value .output)
  | 'f' => some (.value .format)
  | 'c' => some (.value .config)
  | 'h' => some (.switch .help)
  | 'V' => some (.switch .version)
  | _ => none

/-! ## Words -/

/-- What a single argument looks like. -/
inductive Word where
  /-- Two dashes, behind which nothing is an option. -/
  | divider
  /-- A name behind two dashes, perhaps with a value behind an equals sign. -/
  | named (name : String) (value : Option String)
  /-- A letter behind a dash, perhaps with a value right behind it. -/
  | lettered (letter : Char) (value : Option String)
  | plain (text : String)
deriving DecidableEq

/-- What an argument looks like.  A dash alone is plain. -/
def Word.ofArgument (argument : String) : Word :=
  match argument.toList with
  | ['-', '-'] => divider
  | '-' :: '-' :: rest =>
    let name := String.ofList (rest.takeWhile (· != '='))
    match rest.dropWhile (· != '=') with
    | _ :: value => named name (some (String.ofList value))
    | [] => named name none
  | '-' :: letter :: rest =>
    match rest with
    | [] => lettered letter none
    | '=' :: value => lettered letter (some (String.ofList value))
    | value => lettered letter (some (String.ofList value))
  | _ => plain argument

/-! ## Reading -/

/-- What has been given so far. -/
structure Given where
  input : Option String
  output : Option String
  format : Option OutputFormat
  config : Option String
  strict : Bool
  logLevel : Option String
deriving DecidableEq

namespace Given

/-- Nothing yet. -/
def nothing : Given := ⟨none, none, none, none, false, none⟩

/-- Gives an option that has not been given before. -/
def once {α : Type} (before : Option α) (after : Given) : Except ArgumentError Given :=
  if before.isSome then .error .repeated else .ok after

/-- Gives the value of an option. -/
def setValue (g : Given) (o : ValueOption) (value : String) : Except ArgumentError Given :=
  match o with
  | .output => once g.output { g with output := some value }
  | .config => once g.config { g with config := some value }
  | .logLevel => once g.logLevel { g with logLevel := some value }
  | .format =>
    if g.format.isSome then .error .repeated
    else
      match OutputFormat.ofName value with
      | .error _ => .error .badFormat
      | .ok format => .ok { g with format := some format }

/-- Gives an option without a value. -/
def setSwitch (g : Given) : Switch → Except ArgumentError Given
  | .strict => if g.strict then .error .repeated else .ok { g with strict := true }
  | .help => .error .helpWanted
  | .version => .error .versionWanted

/-- The arguments, once all are given. -/
def complete (g : Given) : Except ArgumentError Arguments :=
  match g.input with
  | none => .error .missingInput
  | some input =>
    .ok
      { input := input
        output := g.output.getD "out.svg"
        format := g.format.getD .svg
        config := g.config
        strict := g.strict
        logLevel := g.logLevel.getD "info" }

end Given

/-- An option that has not been looked at, with its value once that has been read. -/
structure Pending where
  option : ValueOption
  value : Option String
deriving DecidableEq

/-- Arguments that are being read. -/
structure Progress where
  given : Given
  pending : Option Pending
  /-- Two dashes have been read. -/
  plainOnly : Bool
deriving DecidableEq

namespace Progress

/-- Before the first argument. -/
def start : Progress := ⟨.nothing, none, false⟩

/-- Looks at the option that was kept back. -/
def settle (p : Progress) : Except ArgumentError Given :=
  match p.pending with
  | none => .ok p.given
  | some ⟨_, none⟩ => .error .missingValue
  | some ⟨option, some value⟩ => p.given.setValue option value

/-- Reads an option with the value that is attached to it, if there is one. -/
def readOption (p : Progress) (o : ValueOption) (value : Option String) :
    Except ArgumentError Progress := do
  let given ← p.settle
  match value with
  | some value =>
    let given ← given.setValue o value
    return { p with given := given, pending := none }
  | none => return { p with given := given, pending := some ⟨o, none⟩ }

/-- Reads an option without a value. -/
def readSwitch (p : Progress) (s : Switch) : Except ArgumentError Progress := do
  let given ← (← p.settle).setSwitch s
  return { p with given := given, pending := none }

/-- Reads an argument that is no option: the value that an option waits for, or the
input. -/
def readPlain (p : Progress) (text : String) : Except ArgumentError Progress :=
  match p.pending, p.plainOnly with
  | some ⟨option, none⟩, false => .ok { p with pending := some ⟨option, some text⟩ }
  | _, _ =>
    if p.given.input.isSome then .error .unknown
    else do
      let given ← p.settle
      return { p with given := { given with input := some text }, pending := none }

/-- Reads an argument. -/
def read (p : Progress) (argument : String) : Except ArgumentError Progress :=
  if p.plainOnly then p.readPlain argument
  else
    match Word.ofArgument argument with
    | .divider => .ok { p with plainOnly := true }
    | .plain text => p.readPlain text
    | .named name value =>
      match AnyOption.ofName? name, value with
      | none, _ => .error .unknown
      | some (.switch _), some _ => .error .unneededValue
      | some (.switch s), none => p.readSwitch s
      | some (.value o), value => p.readOption o value
    | .lettered letter value =>
      match AnyOption.ofLetter? letter with
      | none => .error .unknown
      | some (.switch s) => p.readSwitch s
      | some (.value o) => p.readOption o value

end Progress

/-- Reads the arguments of the command. -/
def Arguments.read (arguments : List String) : Except ArgumentError Arguments := do
  let progress ← arguments.foldlM Progress.read Progress.start
  (← progress.settle).complete

end LadderLogic.Command
