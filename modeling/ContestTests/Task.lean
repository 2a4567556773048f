import ContestTests.Failure
import ContestTests.Tree.Files

/-!
# Tasks

A task is a directory at a fixed depth below a root, with the files below it. Tasks come in the order
of their names, compared name by name on the way down; the files of a task come in byte order.
-/

namespace ContestTests

structure Task where
  /-- The way from the root, with slashes; empty if the root is the task. -/
  name : String
  /-- Paths below the directory of the task. -/
  files : List String
deriving DecidableEq, Repr

namespace Task

def label (name : String) : String := if name.isEmpty then "." else name

def directory (base name : String) : String := if name.isEmpty then base else Path.join base name

def insertText (text : String) : List String → List String
  | [] => [text]
  | other :: texts => if text ≤ other then text :: other :: texts else other :: insertText text texts

def sortTexts (texts : List String) : List String := texts.foldr insertText []

def wayText (way : Key) : String := Path.joinTexts "/" way

def pathTo (root : String) (way : Key) : String := way.foldl Path.join root

/-- What a walk meets at a path and, so many levels deep, below it: ways from there. A directory comes before
what is in it, and names come in order. A directory that can not be opened comes before its failure; those at the
last level are not opened. -/
def walk (t : Tree) : Nat → Key → String → List (Except Failure Key)
  | 0, _, _ => [.ok []]
  | depth + 1, key, path => .ok [] ::
    if t.isDirectoryAt key then
      match t.list path with
      | .error fault => [.error (.walk path fault)]
      | .ok names => (sortTexts names).flatMap fun name =>
        (walk t depth (key ++ [name]) (Path.join path name)).map fun met => met.map (name :: ·)
    else []

def listFiles (t : Tree) (path : String) : Except Failure (List String) :=
  match t.look path with
  | .error fault => .error (.walk path fault)
  | .ok (key, _) => do
    let ways ← (walk t (t.depthBelow key + 1) key path).mapM id
    -- Names in order do not put paths in order: the slash stands among other signs.
    return sortTexts ((ways.filter fun way => t.isFileAt (key ++ way)).map wayText)

def collect (t : Tree) (root : String) (key : Key) (level : Nat) :
    List (Except Failure Key) → Except Failure (List Task)
  | [] => return []
  | met :: more => do
    let way ← met
    if way.length == level && t.isDirectoryAt (key ++ way) then
      let files ← listFiles t (pathTo root way)
      return ⟨wayText way, files⟩ :: (← collect t root key level more)
    else collect t root key level more

/-- The tasks exactly `level` directories below a root. -/
def scan (t : Tree) (root : String) (level : Nat) : Except Failure (List Task) :=
  match t.directoryKey root with
  | .error _ => .error (.taskDirNotFound root)
  | .ok key => do
    match ← collect t root key level (walk t level key root) with
    | [] => throw (.noTasks root level)
    | tasks => return tasks

end Task

end ContestTests
