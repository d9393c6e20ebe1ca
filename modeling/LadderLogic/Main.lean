/-
The command: draws a ladder program.
-/

import LadderLogic.Command.Run

namespace LadderLogic

open Command

/-- The cause of a failed operation on a file. -/
def fileError : IO.Error → FileError
  | .noFileOrDirectory .. => .notFound
  | .inappropriateType _ code _ => if code = 20 then .notDirectory else .isDirectory
  | .invalidArgument _ code details =>
    if code = 36 then .nameTooLong else .other details
  | e => .other (toString e)

/-- Runs an operation on a file. -/
def attempt {α : Type} (operation : IO α) : IO (Except FileError α) := do
  try
    return .ok (← operation)
  catch e =>
    return .error (fileError e)

/-- Access to the files of the system. -/
def systemFiles : FileAccess IO where
  isPresent path := do
    return (← attempt (IO.FS.realPath path)).isOk
  read path := attempt (IO.FS.readBinFile path)
  write path content := attempt (IO.FS.writeBinFile path content)

/-- The settings file of the platform. -/
def platformSettings : IO (Option String) := do
  let home ← IO.getEnv "HOME"
  let directory ← IO.getEnv "XDG_CONFIG_HOME"
  let directory := (directory.filter (·.startsWith "/")).or (home.map (· ++ "/.config"))
  return directory.map (· ++ "/ladderview/config.toml")

end LadderLogic

/-- Executes the command on the files of the system. -/
def main (arguments : List String) : IO UInt32 := do
  let platform ← LadderLogic.platformSettings
  let ending ← LadderLogic.Command.execute LadderLogic.systemFiles platform arguments
  for line in ending.output do
    IO.println line
  for line in ending.errors do
    IO.eprintln line
  return ending.exitCode.toUInt32
