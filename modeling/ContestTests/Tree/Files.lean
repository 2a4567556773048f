import ContestTests.Tree.Basic
import ContestTests.Tree.Fault

/-!
# Working with files through paths

A path is followed name by name; everything before its last name must be a directory. Reading leaves
the tree alone. A change either happens as a whole or leaves the tree as it was, except that
`createDirs` keeps the directories it made before a failure. A change fails only for what stands on its way,
for a name or a path that is too long, or where a name does not go from one file system to another: trees leave
out permissions, links and the end of the disk.
-/

namespace ContestTests

namespace Tree

open ContestTests.Path (Component)

def stepFrom (key : Key) : Component → Key
  | .root => []
  | .here => key
  | .up => key.dropLast
  | .entry name => key ++ [name]

/-- Names have at most 255 bytes. -/
def nameFits : Component → Bool
  | .entry name => name.utf8ByteSize ≤ 255
  | _ => true

/-- Paths have less than 4096 bytes. -/
def pathFits (path : String) : Bool := path.utf8ByteSize < 4096

/-- Follows the steps; every step must start in a directory. -/
def follow (t : Tree) : Key → List Component → Except Fault Key
  | key, [] => .ok key
  | key, step :: steps =>
    match t.find? key with
    | none => .error .notFound
    | some (.file _) => .error .notADirectory
    | some .directory =>
      if nameFits step then follow t (stepFrom key step) steps else .error .nameTooLong

/-- The steps of a path, in which a trailing slash stays in a directory. -/
def stepsOf (path : String) : List Component :=
  (Path.pieces path).map Component.ofPiece ++
    if path.toList.getLast? = some '/' then [.here] else []

/-- The key that a path leads to, whether or not something stands there. -/
def locate (t : Tree) (path : String) : Except Fault Key :=
  if path.isEmpty then .error .notFound
  else if path.toList.contains '\x00' then .error .nulInPath
  else if !pathFits path then .error .nameTooLong
  else t.follow (if Path.isAbsolute path then [] else t.current) (stepsOf path)

def look (t : Tree) (path : String) : Except Fault (Key × Entry) := do
  let key ← t.locate path
  match t.find? key with
  | none => .error .notFound
  | some entry => .ok (key, entry)

def exists? (t : Tree) (path : String) : Bool := (t.look path) matches .ok _

def isDirectory (t : Tree) (path : String) : Bool := (t.look path) matches .ok (_, .directory)

def isFile (t : Tree) (path : String) : Bool := (t.look path) matches .ok (_, .file _)

def read (t : Tree) (path : String) : Except Fault ByteArray := do
  match ← t.look path with
  | (_, .file content) => .ok content
  | (_, .directory) => .error .isADirectory

def readText (t : Tree) (path : String) : Except Fault String := do
  match String.fromUTF8? (← t.read path) with
  | some text => .ok text
  | none => .error .notUtf8

def directoryKey (t : Tree) (path : String) : Except Fault Key := do
  match ← t.look path with
  | (key, .directory) => .ok key
  | (_, .file _) => .error .notADirectory

def list (t : Tree) (path : String) : Except Fault (List String) := do
  .ok (t.namesIn (← t.directoryKey path))

def dropSlash (path : String) : String :=
  let text := path.toList.reverse.dropWhile (· == '/')
  if text.isEmpty then path else String.ofList text.reverse

/-- Writes a file in a directory that exists, over a file that stands there. -/
def write (t : Tree) (path : String) (content : ByteArray) : Except Fault Tree :=
  match t.locate path with
  | .error fault =>
    if fault = .notFound ∧ path.toList.getLast? = some '/' ∧ (t.locate (dropSlash path)) matches .ok _
    then .error .isADirectory else .error fault
  | .ok key =>
    match t.find? key with
    | some .directory => .error .isADirectory
    | _ => .ok (t.put key (.file content))

def makeDir (t : Tree) (path : String) : Except Fault Tree := do
  let key ← t.locate (dropSlash path)
  match t.find? key with
  | some _ => .error .alreadyExists
  | none => .ok (t.put key .directory)

def copyFile (t : Tree) (source target : String) : Except Fault Tree := do
  match ← t.look source with
  | (_, .directory) => .error .notAFile
  | (_, .file content) => t.write target content

def removeFile (t : Tree) (path : String) : Except Fault Tree := do
  match ← t.look path with
  | (_, .directory) => .error .isADirectory
  | (key, .file _) => .ok (t.erase key)

def removeDir (t : Tree) (key : Key) : Except Fault Tree :=
  match t.find? key with
  | none => .error .notFound
  | some (.file _) => .error .notADirectory
  | some .directory => if t.isEmptyAt key then .ok (t.erase key) else .error .notEmpty

def moveDir (t : Tree) (source target : Key) : Tree :=
  { t with entries := t.entries.map fun (key, entry) =>
      (if source.isPrefixOf key then target ++ key.drop source.length else key, entry) }

def rename (t : Tree) (source target : String) : Except Fault Tree := do
  let (key, entry) ← t.look source
  let targetKey ← t.locate (match entry with
    | .directory => dropSlash target
    | .file _ => target)
  if t.refusesRename key targetKey then .error .crossDevice
  else match t.find? targetKey with
  | some _ => .error .alreadyExists
  | none =>
    match (stepsOf (dropSlash source)).getLast?, entry with
    | some (.entry _), .file content => .ok ((t.erase key).put targetKey (.file content))
    | some (.entry _), .directory =>
      -- Nothing moves below itself.
      if key.isPrefixOf targetKey then .error .busy else .ok (t.moveDir key targetKey)
    -- A path that ends in a dot, or in the root, names no entry that could move.
    | _, _ => .error .busy

end Tree

/-- Changes of a tree that may fail; what was done before a failure stays done. -/
abbrev Action := EStateM Fault Tree

namespace Action

def ofChange (change : Tree → Except Fault Tree) : Action Unit := fun t =>
  match change t with
  | .ok t => .ok () t
  | .error fault => .error fault t

def makeDirAfter (above : Action Unit) (path : String) : Action Unit := fun t =>
  match t.makeDir path with
  | .ok t => .ok () t
  | .error .notFound =>
    match above t with
    | .error fault t => .error fault t
    | .ok () t =>
      match t.makeDir path with
      | .ok t => .ok () t
      | .error fault => if t.isDirectory path then .ok () t else .error fault t
  | .error fault => if t.isDirectory path then .ok () t else .error fault t

/-- Makes the directory with these components, last one first, and those above it. -/
def createComponents : List Path.Component → Action Unit
  | [] => pure ()
  | last :: above =>
    makeDirAfter (createComponents above) (Path.ofComponents (last :: above).reverse)

def createDirs (path : String) : Action Unit :=
  if path.isEmpty then pure ()
  else makeDirAfter (createComponents (Path.components path).reverse.tail) path

def write (path : String) (content : ByteArray) : Action Unit :=
  ofChange (·.write path content)

def copyFile (source target : String) : Action Unit := ofChange (·.copyFile source target)

def removeFile (path : String) : Action Unit := ofChange (·.removeFile path)

def rename (source target : String) : Action Unit := ofChange (·.rename source target)

end Action

end ContestTests
