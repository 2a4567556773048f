import ContestTests.Detection

/-!
# Converting tests

A conversion copies or moves the files of a candidate to numbered files, one directory for each task,
and writes the marks of every task. It is refused before anything is touched if a marks file exists.
A transfer that fails ends it; what was done before stays, and the failure tells how many files that
were. After a move, directories without files can be removed.
-/

namespace ContestTests

inductive TransferMode where
  | copy
  | move
deriving DecidableEq, Repr

def TransferMode.arrow : TransferMode → String
  | .copy => "->"
  | .move => "=>"

/-- One file that goes from one path to another. -/
structure Transfer where
  isInput : Bool
  source : String
  target : String
deriving DecidableEq, Repr

namespace Conversion

structure Options where
  /-- Where the tasks are. -/
  taskDir : String
  /-- Where the numbered files go. -/
  workDir : String
  mode : TransferMode
  /-- Whether directories that have lost all files are removed after a move. -/
  clean : Bool
  infilesOnly : Bool
  marksFile : String

def defaultMarksFile : String := "marks.txt"

namespace Options

def targetDir (o : Options) (task : String) : String := Task.directory o.workDir task

def marksPath (o : Options) (m : TaskMatch) : String :=
  Path.join (o.targetDir m.task) o.marksFile

def transfer (o : Options) (task : String) (isInput : Bool) (index : Nat) (record : Record) :
    Transfer :=
  ⟨isInput, Path.join (Task.directory o.taskDir task) record.path,
    Path.join (o.targetDir task)
      (Detection.numbered index (if isInput then "in" else "out"))⟩

/-- The transfers from an index on: each input, and then its output if there is one. -/
def transfersFrom (o : Options) (task : String) : Nat → List Record → List Record → List Transfer
  | _, [], _ => []
  | index, input :: inputs, outputs =>
    let first := o.transfer task true index input
    match outputs with
    | output :: outputs =>
      if o.infilesOnly then first :: transfersFrom o task (index + 1) inputs outputs
      else first :: o.transfer task false index output ::
        transfersFrom o task (index + 1) inputs outputs
    | [] => first :: transfersFrom o task (index + 1) inputs []

def transfers (o : Options) (m : TaskMatch) : List Transfer :=
  o.transfersFrom m.task 0 m.inputs m.outputs

end Options

/-- Refuses to start where the place for the output is unusable. -/
def check (t : Tree) (o : Options) (c : Candidate) : Except Failure Unit :=
  if t.exists? o.workDir && !t.isDirectory o.workDir then .error (.workDirIsFile o.workDir)
  else match c.tasks.find? fun m => t.exists? (o.marksPath m) with
    | some m => .error (.marksFileExists (o.marksPath m))
    | none => .ok ()

/-- A file that can not be renamed, whatever keeps it from it, is copied and removed. -/
def moveFile (source target : String) : Action Unit :=
  tryCatch (Action.rename source target) fun _ => do
    Action.copyFile source target
    Action.removeFile source

def transferFile (mode : TransferMode) (source target : String) : Action Unit := do
  if (← get).exists? target then throw .targetExists
  match mode with
  | .copy => Action.copyFile source target
  | .move => moveFile source target

structure Progress where
  tree : Tree
  /-- Finished transfers, as they were told one after the other. -/
  log : List Transfer
  tasks : Nat
  inputs : Nat
  outputs : Nat
  marksFiles : List String

namespace Progress

def start (t : Tree) : Progress := ⟨t, [], 0, 0, 0, []⟩

def transferred (p : Progress) : Nat := p.inputs + p.outputs

def count (p : Progress) (tr : Transfer) : Progress :=
  if tr.isInput then { p with inputs := p.inputs + 1 } else { p with outputs := p.outputs + 1 }

end Progress

/-- A part of a conversion; a failure leaves the progress made before it. -/
abbrev Work := EStateM Failure Progress

namespace Work

def ofAction (action : Action Unit) : Work Unit := fun p =>
  match action p.tree with
  | .ok () t => .ok () { p with tree := t }
  | .error fault t => .error (.io fault) { p with tree := t }

/-- What the failure tells are the counters, and not the log. -/
def transfer (mode : TransferMode) (tr : Transfer) : Work Unit := fun p =>
  match transferFile mode tr.source tr.target p.tree with
  | .ok () t => .ok () ({ p with tree := t, log := p.log ++ [tr] }.count tr)
  | .error fault t => .error (.transfer tr.source tr.target p.transferred fault) { p with tree := t }

def transferAll (mode : TransferMode) : List Transfer → Work Unit
  | [] => pure ()
  | tr :: more => do
    transfer mode tr
    transferAll mode more

def ensureDir (path : String) : Work Unit := fun p =>
  if p.tree.exists? path then .ok () p else ofAction (Action.createDirs path) p

def writeMarks (o : Options) (m : TaskMatch) : Work Unit := do
  let path := o.marksPath m
  ofAction (Action.write path (Record.renderMarks (Record.marks m.inputs)).toUTF8)
  modify fun p => { p with tasks := p.tasks + 1, marksFiles := p.marksFiles ++ [path] }

def task (o : Options) (m : TaskMatch) : Work Unit := do
  ensureDir (o.targetDir m.task)
  transferAll o.mode (o.transfers m)
  writeMarks o m

def tasks (o : Options) : List TaskMatch → Work Unit
  | [] => pure ()
  | m :: more => do
    task o m
    tasks o more

end Work

structure Cleanup where
  /-- A directory comes after those below it. -/
  removed : List String
  failures : List (String × Fault)
deriving DecidableEq, Repr

namespace Cleanup

def nothing : Cleanup := ⟨[], []⟩

def removes (c : Cleanup) (path : String) : Cleanup := { c with removed := c.removed ++ [path] }

def fails (c : Cleanup) (path : String) (fault : Fault) : Cleanup :=
  { c with failures := c.failures ++ [(path, fault)] }

end Cleanup

/-- The names of the directories in a directory, in the order in which it tells them. -/
abbrev Listing := Tree → Key → List String

def visitAll (visit : String → Cleanup × Tree → Cleanup × Tree) (path : String) :
    List String → Cleanup × Tree → Cleanup × Tree
  | [], s => s
  | name :: names, s => visitAll visit path names (visit (Path.join path name) s)

def leave (path : String) : Cleanup × Tree → Cleanup × Tree
  | (c, t) =>
    match t.directoryKey path with
    | .error fault => (c.fails path fault, t)
    | .ok key =>
      if t.isEmptyAt key then
        match t.removeDir key with
        | .ok t => (c.removes path, t)
        | .error fault => (c.fails path fault, t)
      else (c, t)

/-- Cleans up below a directory, as deep as it is given, and leaves it. What hinders cleaning up fails
nothing, since the conversion is done by now. -/
def sweep (listing : Listing) : Nat → String → Cleanup × Tree → Cleanup × Tree
  | 0, _, s => s
  | depth + 1, path, (c, t) =>
    match t.directoryKey path with
    | .error fault => (c.fails path fault, t)
    | .ok key => leave path (visitAll (sweep listing depth) path (listing t key) (c, t))

/-- Removes the directories below a root that hold no file, each found by its path when its turn comes; the
root stays. -/
def cleanUp (listing : Listing) (root : String) (t : Tree) : Cleanup × Tree :=
  match t.directoryKey root with
  | .error fault => (Cleanup.nothing.fails root fault, t)
  | .ok base => visitAll (sweep listing (t.depthBelow base)) root (listing t base) (.nothing, t)

def removeEmptyDirs : String → Tree → Cleanup × Tree := cleanUp Tree.directoryNames

structure Report where
  tasks : Nat
  inputs : Nat
  outputs : Nat
  marksFiles : List String
  cleanup : Cleanup
deriving DecidableEq, Repr

structure Outcome where
  transfers : List Transfer
  result : Except Failure Report
  tree : Tree

def apply (t : Tree) (o : Options) (c : Candidate) : Outcome :=
  match check t o c with
  | .error failure => ⟨[], .error failure, t⟩
  | .ok () =>
    match Work.tasks o c.tasks (.start t) with
    | .error failure p => ⟨p.log, .error failure, p.tree⟩
    | .ok () p =>
      let (cleanup, tree) :=
        if o.mode = .move ∧ o.clean then removeEmptyDirs o.taskDir p.tree else (.nothing, p.tree)
      ⟨p.log, .ok ⟨p.tasks, p.inputs, p.outputs, p.marksFiles, cleanup⟩, tree⟩

end Conversion

end ContestTests
