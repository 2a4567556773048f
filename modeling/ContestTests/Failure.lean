import ContestTests.Definition
import ContestTests.Template.Basic
import ContestTests.Tree.Fault

/-!
# Failures

Everything that ends a run early, with its message and the exit code of the program. Codes from 2 to 5
say that nothing was touched.
-/

namespace ContestTests

inductive Failure where
  | detectionFailed
  | taskDirNotFound (path : String)
  | noTasks (path : String) (level : Nat)
  | typeNotRecognized (initial directory : String)
  | marksFileExists (path : String)
  | workDirIsFile (path : String)
  /-- A file could not be transferred after so many others. -/
  | transfer (source target : String) (done : Nat) (fault : Fault)
  | promptClosed
  | template (error : Template.Error)
  | definition (error : Definition.Error)
  | settingsUnreadable (path : String)
  | unknownSetting (key : String)
  | invalidSetting (key reason : String)
  | io (fault : Fault)
  | walk (path : String) (fault : Fault)
deriving DecidableEq, Repr

namespace Failure

open Text

def message : Failure → String
  | detectionFailed => "Failed to detect task type!"
  | taskDirNotFound path => s!"No such directory exists: {path}"
  | noTasks path level =>
    s!"No subdirectories found at specified level! ({path}, level {decimal level})"
  | typeNotRecognized initial directory =>
    "Task type not recognized! (prefix '" ++ initial ++ "' in " ++ directory ++ ")"
  | marksFileExists path => s!"I refuse to rewrite existing marks file: {path}"
  | workDirIsFile path => s!"I refuse to replace existing file with a directory: {path}"
  | transfer source target done fault =>
    s!"Failed to copy/move \"{source}\" to \"{target}\" after {decimal done} files: {fault.message}"
  | promptClosed => "Can't read from input!"
  | template error => s!"Invalid template: {error.message}"
  | definition error => s!"Invalid task type: {error.message}"
  | settingsUnreadable path => s!"Config parse error in {path}: <toml>"
  | unknownSetting key => s!"Unknown config key: {key}"
  | invalidSetting key reason => s!"Invalid value for {key}: {reason}"
  | io fault => s!"IO error: {fault.message}"
  | walk path fault => s!"Directory walk error: IO error for operation on {path}: {fault.message}"

def exitCode : Failure → Nat
  | detectionFailed => 2
  | taskDirNotFound .. | noTasks .. => 3
  | typeNotRecognized .. => 4
  | marksFileExists .. | workDirIsFile .. => 5
  | transfer .. => 6
  | _ => 1

end Failure

def cancelledExitCode : Nat := 10

end ContestTests
