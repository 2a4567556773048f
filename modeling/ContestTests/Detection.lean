import ContestTests.Candidate
import ContestTests.Template.Pattern

/-!
# Detecting naming schemes

A definition is accepted when its templates explain the tasks: every task has input files, no file is
both input and output, no numbered file exists yet, task names agree, and inputs and outputs of a task
have the same tests. Otherwise the first objection found rejects it.
-/

namespace ContestTests

inductive Rejection where
  | template (error : Template.Error)
  | ambiguous (task path : String)
  | noInputFiles (task : String)
  | taskCountMismatch (withInputs withOutputs : Nat)
  | fileCountMismatch (task : String) (inputs outputs : Nat)
  | taskNameMismatch (task expected found path : String)
  | groupMismatch (task input output : String)
  | testMismatch (task input output : String)
  | duplicateSource (task path : String)
  | targetExists (path : String)
deriving DecidableEq, Repr

open Text in
def Rejection.message : Rejection → String
  | .template error => error.message
  | .ambiguous task path =>
    s!"file \"{path}\" in task \"{task}\" is detected as both input and output file"
  | .noInputFiles task => s!"no input files detected in task \"{task}\""
  | .taskCountMismatch withInputs withOutputs =>
    s!"{decimal withInputs} tasks have input files but {decimal withOutputs} have output files"
  | .fileCountMismatch task inputs outputs =>
    s!"number of input ({decimal inputs}) and output ({decimal outputs}) files doesn't match " ++
      s!"in task \"{task}\""
  | .taskNameMismatch task expected found path =>
    s!"task names don't match in task \"{task}\": \"{expected}\" vs \"{found}\" ({path})"
  | .groupMismatch task input output =>
    s!"group numbers don't match in task \"{task}\": \"{input}\" vs \"{output}\""
  | .testMismatch task input output =>
    s!"test numbers don't match in task \"{task}\": \"{input}\" vs \"{output}\""
  | .duplicateSource task path => s!"file \"{path}\" in task \"{task}\" is matched more than once"
  | .targetExists path => s!"target file already exists: {path}"

namespace Detection

structure Options where
  /-- Tasks have no output files. -/
  infilesOnly : Bool
  /-- Where the numbered files will be. -/
  workDir : String
deriving DecidableEq, Repr

/-- Input and output records of the files of one task, in the order of the files. -/
def classify (input output : Pattern) (infilesOnly : Bool) (label : String) :
    List String → Except Rejection (List Record × List Record)
  | [] => .ok ([], [])
  | path :: paths =>
    match input.match? path, if infilesOnly then none else output.match? path with
    | some _, some _ => .error (.ambiguous label path)
    | some record, none =>
      (classify input output infilesOnly label paths).map fun (ins, outs) => (record :: ins, outs)
    | none, some record =>
      (classify input output infilesOnly label paths).map fun (ins, outs) => (ins, record :: outs)
    | none, none => classify input output infilesOnly label paths

def matchTask (input output : Pattern) (infilesOnly : Bool) (task : Task) :
    Except Rejection TaskMatch := do
  let (ins, outs) ← classify input output infilesOnly (Task.label task.name) task.files
  if ins.isEmpty then .error (.noInputFiles (Task.label task.name))
  else .ok ⟨task.name, Record.sort ins, Record.sort outs⟩

def numbered (index : Nat) (extension : String) : String :=
  Text.decimal (index + 1) ++ "." ++ extension

/-- Checks the records from an index on: no path was seen before and no target exists. The answer
holds all paths seen. -/
def checkTargets (t : Tree) (label directory extension : String) :
    Nat → List String → List Record → Except Rejection (List String)
  | _, seen, [] => .ok seen
  | index, seen, record :: records =>
    let target := Path.join directory (numbered index extension)
    if record.path ∈ seen then .error (.duplicateSource label record.path)
    else if t.exists? target then .error (.targetExists target)
    else checkTargets t label directory extension (index + 1) (record.path :: seen) records

def checkFileSet (t : Tree) (workDir : String) (m : TaskMatch) : Except Rejection Unit := do
  let label := Task.label m.task
  let directory := Task.directory workDir m.task
  let seen ← checkTargets t label directory "in" 0 [] m.inputs
  -- A path may serve once, be it as input or as output.
  let _ ← checkTargets t label directory "out" 0 seen m.outputs
  .ok ()

def checkNames (label : String) : List Record → Except Rejection Unit
  | [] => .ok ()
  | first :: rest =>
    match rest.find? (·.taskName != first.taskName) with
    | some other => .error (.taskNameMismatch label first.taskName other.taskName other.path)
    | none => .ok ()

/-- Inputs and outputs may leave the name out on one side, but not differ. -/
def checkSameName (label : String) : List Record → List Record → Except Rejection Unit
  | input :: _, output :: _ =>
    if !input.taskName.isEmpty && !output.taskName.isEmpty && input.taskName != output.taskName then
      .error (.taskNameMismatch label input.taskName output.taskName output.path)
    else .ok ()
  | _, _ => .ok ()

def checkTests (label : String) : List Record → List Record → Except Rejection Unit
  | input :: inputs, output :: outputs =>
    if input.group ≠ output.group then .error (.groupMismatch label input.path output.path)
    else if input.test ≠ output.test then .error (.testMismatch label input.path output.path)
    else checkTests label inputs outputs
  | _, _ => .ok ()

def checkPairs (m : TaskMatch) : Except Rejection Unit := do
  let label := Task.label m.task
  if m.inputs.length ≠ m.outputs.length then
    .error (.fileCountMismatch label m.inputs.length m.outputs.length)
  else
    checkNames label m.inputs
    checkNames label m.outputs
    checkSameName label m.inputs m.outputs
    checkTests label m.inputs m.outputs

def checkTaskCounts (matched : List TaskMatch) : Except Rejection Unit :=
  let withInputs := matched.countP fun m => !m.inputs.isEmpty
  let withOutputs := matched.countP fun m => !m.outputs.isEmpty
  if withInputs ≠ withOutputs then .error (.taskCountMismatch withInputs withOutputs) else .ok ()

def checkAll (check : TaskMatch → Except Rejection Unit) : List TaskMatch → Except Rejection Unit
  | [] => .ok ()
  | m :: more => do
    check m
    checkAll check more

def compileTemplate (context : Template.Context) (template : String) : Except Rejection Pattern :=
  (Pattern.compile context template).mapError .template

def evaluate (t : Tree) (context : Template.Context) (options : Options) (definition : Definition)
    (tasks : List Task) : Except Rejection Candidate := do
  let input ← compileTemplate context definition.input
  let output ← compileTemplate context definition.output
  let matched ← tasks.mapM (matchTask input output options.infilesOnly)
  -- Objections to single files come before those to pairs, for all tasks.
  checkAll (checkFileSet t options.workDir) matched
  if options.infilesOnly then
    checkAll (fun m => checkNames (Task.label m.task) m.inputs) matched
  else
    checkTaskCounts matched
    checkAll checkPairs matched
  .ok ⟨definition.name, matched⟩

structure Result where
  candidates : List Candidate
  rejected : List (String × Rejection)

def detect (t : Tree) (context : Template.Context) (options : Options)
    (definitions : List Definition) (tasks : List Task) : Result :=
  let results := definitions.map fun d => (d.name, evaluate t context options d tasks)
  ⟨Candidate.sort (results.filterMap fun r => r.2.toOption),
    results.filterMap fun r =>
      match r.2 with
      | .error rejection => some (r.1, rejection)
      | .ok _ => none⟩

end Detection

end ContestTests
