import Doctest.CommandLine.Run

/-!
# The command line
-/

namespace Doctest

/-- The code of the failure to take a file for a directory; it is reported with either sign. -/
def notDirectoryCode : UInt32 :=
  20

/-- The code of the failure of a name that is too long. -/
def nameTooLongCode : UInt32 :=
  36

/-- What the system's report of a failure says about a file. -/
def fileFault : IO.Error → CommandLine.FileFault
  | .noFileOrDirectory .. => .missing
  | .permissionDenied .. => .denied
  | .inappropriateType _ code _ =>
    if code = notDirectoryCode || code = -notDirectoryCode then .notDirectory else .isDirectory
  | .invalidArgument _ code _ =>
    if code = nameTooLongCode || code = -nameTooLongCode then .nameTooLong
    else .other "Invalid argument (os error 22)"
  | .userError _ => .notText
  | fault => .other (toString fault)

/-- What an action on a file gives, or why it failed. -/
def attempt {α : Type} (action : IO α) : IO (Except CommandLine.FileFault α) := do
  match ← action.toBaseIO with
  | .ok a => return .ok a
  | .error fault => return .error (fileFault fault)

/-- The system that the program was started on. -/
def systemHost : CommandLine.Host IO where
  read path := attempt (IO.FS.readFile path)
  write path text := attempt (IO.FS.writeFile path text)
  print text := do (← IO.getStdout).putStr text
  complain text := do (← IO.getStderr).putStr text

end Doctest

open Doctest in
/-- Checks the document that the arguments name. -/
def main (args : List String) : IO UInt32 := do
  let names := ["NO_COLOR", "FORCE_COLOR", "CLICOLOR_FORCE", "CLICOLOR"]
  let settings ← names.mapM fun name => return (name, ← IO.getEnv name)
  let isTerminal ← (← IO.getStdout).isTty
  let environment (name : String) := (settings.lookup name).join
  systemHost.run Script.amplyManyLevels (CommandLine.wantsStyles environment isTerminal) args
