/-
Failures: why a program is not rendered, and how that is reported.
-/

import LadderLogic.Diagnostic
import LadderLogic.Svg.Drawing

namespace LadderLogic

/-! ## Causes -/

/-- What can go wrong with files, and with settings that come from a file. -/
inductive FileError where
  | notFound
  | isDirectory
  | notDirectory
  | notText
  | nameTooLong
  /-- A path holds the character that ends all paths. -/
  | nulInPath
  /-- The settings file that was asked for does not exist. -/
  | settingsMissing (path : String)
  /-- The settings file cannot be read as settings. -/
  | settingsMalformed
  /-- The settings are not usable. -/
  | settingsRejected (fault : SettingsFault Float32)
  | other (message : String)
deriving DecidableEq

/-- The wording of an error with files. -/
def FileError.message : FileError → String
  | notFound => "No such file or directory (os error 2)"
  | isDirectory => "Is a directory (os error 21)"
  | notDirectory => "Not a directory (os error 20)"
  | notText => "stream did not contain valid UTF-8"
  | nameTooLong => "File name too long (os error 36)"
  | nulInPath => "file name contained an unexpected NUL byte"
  | settingsMissing path => "Missing configuration file: " ++ path
  | settingsMalformed => "Failed to parse TOML configuration"
  | settingsRejected fault => "Validation error: " ++ fault.message
  | other message => message

/-- What can go wrong in writing a diagram down. -/
inductive ExportError where
  | render (fault : Svg.RenderFault)
  | file (error : FileError)
deriving DecidableEq

/-- The wording of an error in writing a diagram down. -/
def ExportError.message : ExportError → String
  | render fault => "Render error: " ++ fault.message
  | file error => "I/O error: " ++ error.message

/-- Why a program is not rendered. -/
inductive Failure where
  | file (error : FileError)
  /-- The source has errors; it is kept to show where. -/
  | reading (error : ReadError) (source : String)
  | exporting (error : ExportError)

/-- The wording of a failure. -/
def Failure.message : Failure → String
  | file error => "I/O error: " ++ error.message
  | reading error _ => error.display
  | exporting error => "Export error: " ++ error.message

/-! ## Reports -/

/-- A stretch of a source that is pointed out, by its first byte and its length. -/
structure SourceMark where
  offset : Nat
  length : Nat
  text : String
  primary : Bool
deriving DecidableEq

/-- The stretch that a label is about. -/
def Label.mark (l : Label) : SourceMark where
  offset := l.span.start
  length := l.span.length
  text := l.message
  primary := l.primary

/-- One entry of the report on a failure. -/
structure Report where
  message : String
  code : Option String
  severity : Option Severity
  help : Option String
  marks : List SourceMark
  /-- The source that the marks point into, if one is shown. -/
  source : Option String
  cause : Option String
deriving DecidableEq

/-- The entry for a diagnostic about a source. -/
def Diagnostic.report (source : String) (d : Diagnostic) : Report where
  message := d.message
  code := d.code.map DiagnosticCode.text
  severity := some d.severity
  help := d.help
  marks := d.labels.map Label.mark
  source := some source
  cause := none

/-- The report on a failure: an entry for each diagnostic, or one entry. -/
def Failure.reports (f : Failure) : List Report :=
  match f with
  | .reading error source => error.diagnostics.map (Diagnostic.report source)
  | .file error => [⟨f.message, some "ladderview::io", none, none, [], none, some error.message⟩]
  | .exporting _ => [⟨f.message, some "ladderview::export", none, none, [], none, none⟩]

end LadderLogic
