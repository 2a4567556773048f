import ContestTests.Tree.Path

/-!
# Trees of files

A tree assigns a file or a directory to the keys that exist; a key is the list of names from the root.
The view of a tree is `find?`, and every change is said through it (`find?_put`, `find?_erase`).
Two entries of one key never matter: `find?` sees the first, and `put` leaves one.

Names are text, and there are only directories and regular files: trees have no links, no permissions and
no names that are not UTF-8, a file is never written in part, and no disk is full. Of several file systems
in one tree they know that names do not go from one to the other.
-/

namespace ContestTests

/-- The names on the way from the root. -/
abbrev Key := List String

inductive Entry where
  | directory
  | file (content : ByteArray)

structure Tree where
  entries : List (Key × Entry)
  /-- Where relative paths start. -/
  current : Key
  /-- Between which keys nothing is renamed, as from one file system to another. -/
  refusesRename : Key → Key → Bool

namespace Tree

def empty : Tree := ⟨[], [], fun _ _ => false⟩

/-- What stands at a key. The root is a directory of every tree. -/
def find? (t : Tree) (key : Key) : Option Entry :=
  if key = [] then some .directory else t.entries.lookup key

def erase (t : Tree) (key : Key) : Tree :=
  { t with entries := t.entries.filter fun e => e.1 != key }

def put (t : Tree) (key : Key) (entry : Entry) : Tree :=
  { t with entries := (key, entry) :: (t.erase key).entries }

theorem lookup_filter_ne [BEq α] [LawfulBEq α] [DecidableEq α] (entries : List (α × β)) (key other : α) :
    (entries.filter fun e => e.1 != key).lookup other =
      if other = key then none else entries.lookup other := by
  induction entries with
  | nil => simp
  | cons e entries ih =>
    obtain ⟨k, v⟩ := e
    by_cases same : k = key
    · subst same
      rw [List.filter_cons_of_neg (by simp), ih]
      by_cases h : other = k
      · simp [h]
      · simp [h, List.lookup_cons, beq_eq_false_iff_ne.mpr h]
    · rw [List.filter_cons_of_pos (by simpa using same), List.lookup_cons, List.lookup_cons, ih]
      by_cases h : other = k
      · subst h; simp [same]
      · simp [beq_eq_false_iff_ne.mpr h]

theorem find?_erase (t : Tree) (key other : Key) (named : other ≠ []) :
    (t.erase key).find? other = if other = key then none else t.find? other := by
  simp [find?, erase, named, lookup_filter_ne]

theorem find?_put (t : Tree) (key other : Key) (entry : Entry) (named : key ≠ []) :
    (t.put key entry).find? other = if other = key then some entry else t.find? other := by
  by_cases same : other = key
  · subst same; simp [find?, put, named]
  · by_cases root : other = []
    · simp [find?, root, Ne.symm named]
    · simp [find?, put, erase, root, same, List.lookup_cons, beq_eq_false_iff_ne.mpr same,
        lookup_filter_ne]

def isDirectoryAt (t : Tree) (key : Key) : Bool := t.find? key matches some .directory

def isFileAt (t : Tree) (key : Key) : Bool := t.find? key matches some (.file _)

def below? (base key : Key) : Option Key :=
  if base.isPrefixOf key && base.length < key.length then some (key.drop base.length) else none

def contents (t : Tree) (base : Key) : List (Key × Entry) :=
  t.entries.filterMap fun (key, entry) => (below? base key).map fun way => (way, entry)

def directoriesBelow (t : Tree) (base : Key) : List Key :=
  (t.contents base).filterMap fun (way, entry) =>
    match entry with
    | .directory => some way
    | .file _ => none

def onlyName? : Key → Option String
  | [name] => some name
  | _ => none

def namesIn (t : Tree) (base : Key) : List String := (t.contents base).filterMap fun e => onlyName? e.1

def directoryNames (t : Tree) (base : Key) : List String := (t.directoriesBelow base).filterMap onlyName?

def depthBelow (t : Tree) (base : Key) : Nat := ((t.directoriesBelow base).map List.length).foldr max 0

def isEmptyAt (t : Tree) (base : Key) : Bool := (t.contents base).isEmpty

end Tree

end ContestTests
