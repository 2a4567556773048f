import ContestTests.Command.Arguments
import ContestTests.Conversion
import ContestTests.Json
import ContestTests.Selection

/-!
# What runs print

The lines that show tasks, definitions, candidates and conversions, and the texts that do not depend
on files.
-/

namespace ContestTests.Command.Report

open Text

def unlines (lines : List String) : String := String.join (lines.map (· ++ "\n"))

/-! ### Definitions -/

def integer (n : Int) : String := (if n < 0 then "-" else "") ++ decimal n.natAbs

def groupSetLine : GroupSet → String
  | .tokens names => "    SET \x7b" ++ Path.joinTexts ", " names ++ "\x7d"
  | .pattern text => s!"    SET {text}"

def detailLines (d : Definition) : List String :=
  [s!"    in:  {d.input}", s!"    out: {d.output}"] ++
    (d.directives.autosum.map fun n => "    AUTOSUM " ++ integer n).toList ++
    (d.directives.groups.map groupSetLine).toList

def stateLine (context : Template.Context) (d : Definition) : String :=
  match Pattern.compile context d.input, Pattern.compile context d.output with
  | .error error, _ | .ok _, .error error => s!"  [FAIL] {d.name}: {error.message}"
  | .ok _, .ok _ => s!"  [OK] {d.name}"

def skippedLine : String × Failure → String
  | (path, failure) => s!"  [SKIP] {path}: {failure.message}"

/-! ### Detection -/

def taskLine (task : ContestTests.Task) : String :=
  s!"  {Task.label task.name} ({decimal task.files.length} files)"

def rejectedLine : String × Rejection → String
  | (name, rejection) => s!"  [FAIL] {name}: {rejection.message}"

def acceptedLine (c : Candidate) : String := s!"  [OK] {c.display}"

def question (names : List String) : String :=
  unlines (["", "Choose one of the following:", "[ 0] cancel"] ++
    names.zipIdx.map (fun (name, i) => "[" ++ padLeft 2 (decimal (i + 1)) ++ "] " ++ name) ++ [""]) ++
  "> "

def exchange : Exchange → String
  | .ask shown => question (shown.map (·.name))
  | .retry _ problem => problem.message ++ "\n"

def dialogue (exchanges : List Exchange) : String :=
  if exchanges.isEmpty then ""
  else "More than one type was detected. Asking for input.\n" ++ String.join (exchanges.map exchange)

def resolutionLine (name : String) : Resolution → String
  | .unique => s!"Detected task type {name}"
  | .assumed count => s!"{decimal count} types detected, assuming {name}"
  | .chosen => s!"Selected task type {name}"

def recordJson (r : Record) : Json :=
  .object [("path", .text r.path), ("task_name", .text r.taskName), ("group", .number r.group),
    ("test", .number r.test)]

def candidateJson (c : Candidate) : Json :=
  .object [("name", .text c.name), ("tasks", .list (c.tasks.map fun m =>
    .object [("task", .text m.task), ("inputs", .list (m.inputs.map recordJson)),
      ("outputs", .list (m.outputs.map recordJson))]))]

def testLines (m : TaskMatch) : List String :=
  m.inputs.zipIdx.map fun (input, i) =>
    "  [" ++ padLeft 3 (decimal (i + 1)) ++ "] " ++ input.path ++
      ((m.outputs[i]?.map fun output => " | " ++ output.path).getD "") ++
      s!" (group {decimal input.group}, test {decimal input.test})"

def candidateLines (c : Candidate) : List String :=
  "" :: c.tasks.flatMap (fun m => Task.label m.task :: testLines m ++ [""]) ++
    [s!"Total: {decimal c.total} files"]

/-! ### Conversion -/

def transferLine (mode : TransferMode) (tr : Transfer) : String :=
  s!"  \"{tr.source}\" {mode.arrow} \"{tr.target}\""

def cleanupFaultLine : String × Fault → String
  | (dir, fault) => s!"  Couldn't remove directory: {dir} ({fault.message})"

def conversionLines (workDir : String) (report : Conversion.Report) : List String :=
  (report.cleanup.removed.map fun dir => s!"  Removed empty directory: {dir}") ++
    ["", "Summary:", s!"  Tasks: {decimal report.tasks}", s!"  Input files: {decimal report.inputs}",
      s!"  Output files: {decimal report.outputs}"] ++
    (report.marksFiles.map fun path => s!"  Marks: {path}") ++
    ["", s!"Conversion complete: {workDir}"]

/-! ### Fixed texts -/

def help : String :=
"Detects the test file layout of judge tasks and converts it to numbered files

Usage: taskconv [OPTIONS] [COMMAND]

Commands:
  convert      Detect the task type and convert tests to N.in / N.out
  detect       Detect the task type without touching any file
  types        List task type definitions
  config       Manage configuration
  completions  Generate shell completions
  help         Print this message

Options:
  -v, --verbose              Verbose output
  -q, --quiet                Quiet output (errors only, implies --auto)
      --base-dir <BASE_DIR>  Base directory (default: ~/.taskconv)
  -h, --help                 Print help
  -V, --version              Print version
"

def version : String := "taskconv 0.3.0\n"

def misuse : String := "error: invalid arguments\n\nFor more information, try '--help'.\n"

def completions (shell : Shell) : String :=
  let names := Path.joinTexts " " (Level.program.commands.map (·.1))
  match shell with
  | .bash => s!"complete -W \"{names}\" taskconv\n"
  | .zsh => s!"#compdef taskconv\ncompadd {names}\n"
  | .fish => s!"complete -c taskconv -f -a \"{names}\"\n"
  | .powerShell =>
    "Register-ArgumentCompleter -Native -CommandName taskconv -ScriptBlock \x7b '" ++ names ++
      "' -split ' ' \x7d\n"
  | .elvish =>
    "set edit:completion:arg-completer[taskconv] = \x7b|@words| put " ++ names ++ " \x7d\n"

end ContestTests.Command.Report
