import ContestTests.Command.Run

/-!
# The program

Takes what an invocation may look at from the file system into a tree, runs the invocation on it, and
puts the changes back. A run that lacks an answer has printed its question and changed nothing; it is
run again from the start when a line more has been read, and what it prints beyond the first time is
printed then.

Links on the way of a path are followed. Trees have none, so those that stand in a directory are left out:
they are neither tests nor directories to clean up, and a directory with nothing else in it stays.
-/

open ContestTests ContestTests.Command

namespace ContestTests.Program

def pathOf (key : Key) : String := "/" ++ Path.joinTexts "/" key

def keyOf (current : Key) (path : String) : Key :=
  (Tree.stepsOf path).foldl Tree.stepFrom (if Path.isAbsolute path then [] else current)

/-- What stands at a key of the file system, with the names in it, less those of links, if it is a directory. -/
def inspect (key : Key) : IO (Option (Entry × List String)) := do
  try
    let path ← IO.FS.realPath (pathOf key)
    if ← path.isDir then
      let entries ← (← path.readDir).filterM fun entry => return (← entry.path.symlinkMetadata).type != .symlink
      return some (.directory, entries.toList.map (·.fileName))
    else if ← path.pathExists then
      return some (.file (← IO.FS.readBinFile path), [])
    else return none
  catch _ => return none

partial def take (t : Tree) (key : Key) : IO Tree := do
  match ← inspect key with
  | none => return t
  | some (entry, names) =>
    let t := if key.isEmpty then t else t.put key entry
    names.foldlM (fun t name => take t (key ++ [name])) t

def takeAbove (t : Tree) (key : Key) : IO Tree :=
  ((List.range key.length).map key.take).foldlM (fun t above => do
    match ← inspect above with
    | some (.directory, _) => return if above.isEmpty then t else t.put above .directory
    | some (.file content, _) => return t.put above (.file content)
    | none => return t) t

def takeAll (current : Key) (paths : List String) : IO Tree := do
  let keys := (paths.map (keyOf current)).eraseDups
  let t ← takeAbove { Tree.empty with current } (current ++ ["."])
  keys.foldlM (fun t key => do take (← takeAbove t key) key) t

def putBack (before after : Tree) : IO Unit := do
  let gone := before.entries.filter fun (key, _) => (after.find? key).isNone
  for (key, entry) in gone.mergeSort fun a b => b.1.length ≤ a.1.length do
    match entry with
    | .directory => try IO.FS.removeDir (pathOf key) catch _ => pure ()
    | .file _ => IO.FS.removeFile (pathOf key)
  for (key, entry) in after.entries.mergeSort fun a b => a.1.length ≤ b.1.length do
    match before.find? key, entry with
    | some .directory, .directory => pure ()
    | _, .directory => IO.FS.createDir (pathOf key)
    | some (.file old), .file new =>
      if old.data != new.data then IO.FS.writeBinFile (pathOf key) new
    | _, .file new => IO.FS.writeBinFile (pathOf key) new

/-- One more line of the input: a line, its end, or a line that is no text. -/
def readAnswer : IO (Except (Option Fault) String) := do
  try
    let line ← (← IO.getStdin).getLine
    return if line.isEmpty then .error none else .ok line
  catch _ => return .error (some .notUtf8)

/-- Runs an invocation, with more answers as long as it asks for them. What stands in `shown` has been
printed before. -/
partial def converse (inv : Invocation) (env : Environment) (t : Tree) (shown : String) : IO Outcome := do
  let outcome := inv.run env t
  let out ← IO.getStdout
  if outcome.unanswered then
    out.putStr (outcome.out.drop shown.length).toString
    out.flush
    match ← readAnswer with
    | .ok line => converse inv { env with answers := env.answers ++ [line] } t outcome.out
    | .error none => return { outcome with out := "" }
    | .error (some fault) =>
      return { inv.run { env with inputFault := some fault } t with out := "" }
  else return { outcome with out := (outcome.out.drop shown.length).toString }

def runInvocation (inv : Invocation) : IO Outcome := do
  let home := (← IO.getEnv "HOME").filter fun home => !home.isEmpty
  let env : Environment := ⟨← IO.getEnv "TASKCONV_BASE", home, [], none⟩
  let current := keyOf [] (← IO.currentDir).toString
  let before ← takeAll current (inv.paths env)
  let outcome ← converse inv env before ""
  putBack before outcome.tree
  return outcome

end ContestTests.Program

def main (arguments : List String) : IO UInt32 := do
  let outcome ← match Invocation.ofArguments arguments with
    | .ok inv => Program.runInvocation inv
    | .error stop => pure (stop.outcome .empty)
  IO.print outcome.out
  IO.eprint outcome.err
  return outcome.exitCode.toUInt32
