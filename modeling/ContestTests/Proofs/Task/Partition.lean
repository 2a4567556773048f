import ContestTests.Proofs.Task.Scanning
import Mathlib.Data.List.Nodup

/-!
# Every file belongs to one task

Scanning gives every file further down than the tasks one place in the list of one task. Two walks lie one below
the other: the names on the way to a task and the names from there to the file are those on the way to the file.
Only a directory whose path is too long can keep scanning from it.
-/

namespace ContestTests.Task

open ContestTests.Path

variable {t : Tree} {base way down : Key} {level i j : Nat} {root file : String} {task : Task} {tasks : List Task}

def filePath (root : String) (task : Task) (file : String) : String := Path.join (directory root task.name) file

/-- The tasks share out the files below a root that are deeper than they are. -/
structure Partitions (t : Tree) (root : String) (base : Key) (level : Nat) (tasks : List Task) : Prop where
  /-- The tasks are the directories of the level, in the order of their ways. -/
  names : ∃ ways : List Key, tasks.map Task.name = ways.map wayText ∧ ways.Pairwise (· < ·) ∧
    ∀ way, way ∈ ways ↔ way.length = level ∧ t.find? (base ++ way) = some .directory
  once : (tasks.map Task.name).Nodup
  /-- Every deeper file has one place in one task. -/
  covered : ∀ way content, level < way.length → t.find? (base ++ way) = some (.file content) →
    ∃! place : Nat × Nat, ∃ task file, tasks[place.1]? = some task ∧ task.files[place.2]? = some file ∧
      t.keyOf (filePath root task file) = base ++ way
  /-- Nothing else is listed. -/
  found : ∀ task ∈ tasks, ∀ file ∈ task.files, ∃ way content, level < way.length ∧
    t.find? (base ++ way) = some (.file content) ∧ t.keyOf (filePath root task file) = base ++ way
  /-- What is listed is found by its path, unless that is too long. -/
  reached : ∀ task ∈ tasks, ∀ file ∈ task.files, Tree.pathFits (filePath root task file) →
    ∃ content, t.look (filePath root task file) = .ok (t.keyOf (filePath root task file), .file content)
  increasing : ∀ task ∈ tasks, task.files.Pairwise (· < ·)
  apart : tasks.Pairwise fun a b => ∀ file ∈ a.files, ∀ other ∈ b.files,
    t.keyOf (filePath root a file) ≠ t.keyOf (filePath root b other)

-- ---------------------------------------------------------------------------
-- The task at a way
-- ---------------------------------------------------------------------------

def taskAt (t : Tree) (base way : Key) : Task := ⟨wayText way, filesAt t (base ++ way)⟩

structure IsTaskAt (t : Tree) (root : String) (base : Key) (level : Nat) (way : Key) : Prop where
  root : t.keyOf root = base
  depth : way.length = level
  directory : t.find? (base ++ way) = some .directory

namespace IsTaskAt

theorem isWay (h : IsTaskAt t root base level way) (ht : t.WellFormed) : IsWay way := isWay_of_find? ht h.directory

theorem filePath_eq (h : IsTaskAt t root base level way) (ht : t.WellFormed) (hdown : IsWay down) (hne : down ≠ []) :
    filePath root (taskAt t base way) (wayText down) = pathTo root (way ++ down) := by
  rw [filePath, taskAt, directory_wayText root (h.isWay ht), join_wayText _ hdown hne, pathTo_append]

theorem keyOf_filePath (h : IsTaskAt t root base level way) (ht : t.WellFormed) (hdown : IsWay down) :
    t.keyOf (filePath root (taskAt t base way) (wayText down)) = base ++ (way ++ down) := by
  rw [filePath, taskAt, Tree.keyOf_join_way t _ hdown, Tree.keyOf_directory t root (h.isWay ht), h.root, List.append_assoc]

theorem mem_files (h : IsTaskAt t root base level way) (ht : t.WellFormed) : file ∈ (taskAt t base way).files ↔
    ∃ down, down ≠ [] ∧ (∃ content, t.find? (base ++ (way ++ down)) = some (.file content)) ∧ wayText down = file := by
  rw [taskAt, mem_filesAt ht h.directory]
  simp only [List.append_assoc]

theorem listed (h : IsTaskAt t root base level way) (ht : t.WellFormed) (hfile : file ∈ (taskAt t base way).files) :
    ∃ down, down ≠ [] ∧ IsWay down ∧ wayText down = file ∧
      (∃ content, t.find? (base ++ (way ++ down)) = some (.file content)) ∧
      t.keyOf (filePath root (taskAt t base way) file) = base ++ (way ++ down) := by
  obtain ⟨down, hne, ⟨content, hfind⟩, rfl⟩ := (h.mem_files ht).mp hfile
  have hdown : IsWay down := by
    rw [← List.append_assoc] at hfind
    exact isWay_of_find? ht hfind
  exact ⟨down, hne, hdown, rfl, ⟨content, hfind⟩, h.keyOf_filePath ht hdown⟩

theorem eq_of_keyOf {way' : Key} {file' : String} (h : IsTaskAt t root base level way)
    (h' : IsTaskAt t root base level way') (ht : t.WellFormed) (hfile : file ∈ (taskAt t base way).files)
    (hfile' : file' ∈ (taskAt t base way').files)
    (hkey : t.keyOf (filePath root (taskAt t base way) file) = t.keyOf (filePath root (taskAt t base way') file')) :
    way = way' ∧ file = file' := by
  obtain ⟨down, -, -, rfl, -, hplace⟩ := h.listed ht hfile
  obtain ⟨down', -, -, rfl, -, hplace'⟩ := h'.listed ht hfile'
  rw [hplace, hplace'] at hkey
  -- All tasks are equally deep, so the ways part at the same name.
  obtain ⟨hway, hdown⟩ := List.append_inj (List.append_cancel_left hkey) (h.depth.trans h'.depth.symm)
  exact ⟨hway, congrArg wayText hdown⟩

end IsTaskAt

-- ---------------------------------------------------------------------------
-- All tasks
-- ---------------------------------------------------------------------------

section

variable (ht : t.WellFormed) (hroot : t.look root = .ok (base, .directory))

include ht hroot

theorem isTaskAt_iff : way ∈ waysAt t base level ↔ IsTaskAt t root base level way := by
  obtain ⟨hlocate, hbase⟩ := Tree.look_eq_ok.mp hroot
  rw [mem_waysAt ht hbase]
  constructor
  · rintro ⟨hdepth, hdir⟩
    exact ⟨(Tree.locate_eq_ok hlocate).symm, hdepth, hdir⟩
  · exact fun h => ⟨h.depth, h.directory⟩

theorem exists_place {content : ByteArray} (hdeep : level < way.length)
    (hfile : t.find? (base ++ way) = some (.file content)) : ∃ above ∈ waysAt t base level,
      ∃ file ∈ (taskAt t base above).files, t.keyOf (filePath root (taskAt t base above) file) = base ++ way := by
  have hsplit : way.take level ++ way.drop level = way := List.take_append_drop level way
  have hne : way.drop level ≠ [] := by simpa using hdeep
  rw [← hsplit] at hfile
  have hdir : t.find? (base ++ way.take level) = some .directory := by
    rw [← List.append_assoc] at hfile
    exact ht.find?_above hfile hne
  have hdepth : (way.take level).length = level := List.length_take_of_le hdeep.le
  have htask : IsTaskAt t root base level (way.take level) :=
    ⟨(Tree.locate_eq_ok (Tree.look_eq_ok.mp hroot).1).symm, hdepth, hdir⟩
  have hlisted := (htask.mem_files ht).mpr ⟨way.drop level, hne, ⟨content, hfile⟩, rfl⟩
  refine ⟨_, (isTaskAt_iff ht hroot).mpr htask, _, hlisted, ?_⟩
  rw [← List.append_assoc] at hfile
  rw [htask.keyOf_filePath ht (isWay_of_find? ht hfile), hsplit]

theorem partitions_waysAt (level : Nat) : Partitions t root base level ((waysAt t base level).map (taskAt t base)) := by
  obtain ⟨hlocate, hbase⟩ := Tree.look_eq_ok.mp hroot
  have hnodup := waysAt_nodup ht base level
  have hnames : ((waysAt t base level).map (taskAt t base)).map Task.name = (waysAt t base level).map wayText :=
    List.map_map
  have htask {way : Key} (h : way ∈ waysAt t base level) := (isTaskAt_iff ht hroot).mp h
  refine ⟨⟨_, hnames, waysAt_increasing ht base level, fun way => mem_waysAt ht hbase⟩, ?_, ?_, ?_, ?_, ?_, ?_⟩
  · rw [hnames]
    exact hnodup.map_on fun a ha b hb => wayText_injective ((htask ha).isWay ht) ((htask hb).isWay ht)
  · intro way content hdeep hfile
    obtain ⟨above, habove, file, hlisted, hkey⟩ := exists_place ht hroot hdeep hfile
    obtain ⟨i, hi⟩ := List.getElem?_of_mem habove
    obtain ⟨j, hj⟩ := List.getElem?_of_mem hlisted
    refine ⟨(i, j), ⟨_, file, by rw [List.getElem?_map, hi]; rfl, hj, hkey⟩, ?_⟩
    rintro ⟨i', j'⟩ ⟨task, file', htasks, hfile', hkey'⟩
    rw [List.getElem?_map] at htasks
    obtain ⟨above', hi', rfl⟩ := Option.map_eq_some_iff.mp htasks
    obtain ⟨rfl, rfl⟩ := (htask habove).eq_of_keyOf (htask (List.mem_of_getElem? hi')) ht hlisted
      (List.mem_of_getElem? hfile') (hkey.trans hkey'.symm)
    have hsame : i' = i := (List.getElem?_inj (List.getElem?_eq_some_iff.mp hi').1 hnodup).mp (hi'.trans hi.symm)
    have hsame' : j' = j := (List.getElem?_inj (List.getElem?_eq_some_iff.mp hfile').1 (filesAt_nodup ht _)).mp
      (hfile'.trans hj.symm)
    rw [hsame, hsame']
  · intro task hmem file hfile
    obtain ⟨way, hway, rfl⟩ := List.mem_map.mp hmem
    obtain ⟨down, hne, -, -, ⟨content, hfind⟩, hkey⟩ := (htask hway).listed ht hfile
    refine ⟨way ++ down, content, ?_, hfind, hkey⟩
    have hlength := List.length_pos_iff.mpr hne
    rw [List.length_append, (htask hway).depth]
    omega
  · intro task hmem file hfile hshort
    obtain ⟨way, hway, rfl⟩ := List.mem_map.mp hmem
    obtain ⟨down, hne, hdown, rfl, ⟨content, hfind⟩, hkey⟩ := (htask hway).listed ht hfile
    rw [hkey]
    rw [(htask hway).filePath_eq ht hdown hne] at hshort ⊢
    exact ⟨content, Tree.look_pathTo ht.fromRoot hlocate hshort hfind⟩
  · intro task hmem
    obtain ⟨way, -, rfl⟩ := List.mem_map.mp hmem
    exact filesAt_increasing ht _
  · refine List.pairwise_map.mpr (hnodup.imp_of_mem fun {a b} ha hb hne file hfile other hother hkey => hne ?_)
    exact ((htask ha).eq_of_keyOf (htask hb) ht hfile hother hkey).1

/-- Where every directory can be opened, scanning finds no tasks exactly if there is no directory of the level; otherwise
the tasks it finds share out the files that are deeper. Where one can not be opened, scanning fails with its path. -/
theorem scan_partitions (level : Nat) :
    (Openable t root base →
      (scan t root level = .error (.noTasks root level) ↔
        ∀ way, way.length = level → t.find? (base ++ way) ≠ some .directory) ∧
      ((∃ way, way.length = level ∧ t.find? (base ++ way) = some .directory) →
        ∃ tasks, scan t root level = .ok tasks ∧ Partitions t root base level tasks)) ∧
    (¬ Openable t root base → ∃ way, t.find? (base ++ way) = some .directory ∧ ¬ Tree.pathFits (pathTo root way) ∧
      scan t root level = .error (.walk (pathTo root way) .nameTooLong)) := by
  refine ⟨fun hopen => ?_, scan_of_long ht.fromRoot hroot⟩
  obtain ⟨-, hbase⟩ := Tree.look_eq_ok.mp hroot
  have hmem {way : Key} := @mem_waysAt t base way level ht hbase
  have hfound (h : ∃ way, way.length = level ∧ t.find? (base ++ way) = some .directory) :
      scan t root level = .ok ((waysAt t base level).map (taskAt t base)) := by
    obtain ⟨way, hway⟩ := h
    exact scan_of_ways ht.fromRoot hroot hopen (List.ne_nil_of_mem (hmem.mpr hway))
  refine ⟨⟨fun hnone way hdepth hdir => ?_, fun hnone => ?_⟩, fun h => ⟨_, hfound h, partitions_waysAt ht hroot level⟩⟩
  · rw [hfound ⟨way, hdepth, hdir⟩] at hnone
    cases hnone
  · refine scan_of_none ht.fromRoot hroot hopen (List.eq_nil_iff_forall_not_mem.mpr fun way hway => ?_)
    exact hnone way (hmem.mp hway).1 (hmem.mp hway).2

end

/-- The directories come in one order and their names with slashes in another. -/
def dashTree : Tree :=
  ((((Tree.empty.put ["a"] .directory).put ["a-b"] .directory).put ["a-b", "c"] .directory).put ["a", "b"] .directory).put
    ["a", "b", "1.in"] (.file .empty)

theorem dashTree_wellFormed : dashTree.WellFormed := by decide

theorem scan_partitions_dashTree :
    (dashTree.WellFormed ∧ dashTree.look "." = .ok ([], .directory) ∧ Openable dashTree "." []) ∧ "a-b/c" < "a/b" ∧
      Partitions dashTree "." [] 2 [⟨"a/b", ["1.in"]⟩, ⟨"a-b/c", []⟩] ∧
      scan dashTree "." 3 = .error (.noTasks "." 3) := by
  have hroot : dashTree.look "." = .ok ([], .directory) := rfl
  have hopen : Openable dashTree "." [] := (openable_iff dashTree_wellFormed.fromRoot rfl).mpr (by decide +kernel)
  obtain ⟨-, hfound⟩ := (scan_partitions dashTree_wellFormed hroot 2).1 hopen
  obtain ⟨tasks, hscan, hpartitions⟩ := hfound ⟨["a", "b"], rfl, rfl⟩
  have hsame : scan dashTree "." 2 = .ok [⟨"a/b", ["1.in"]⟩, ⟨"a-b/c", []⟩] := by decide +kernel
  rw [hsame] at hscan
  cases hscan
  refine ⟨⟨dashTree_wellFormed, hroot, hopen⟩, by decide +kernel, hpartitions, ?_⟩
  decide +kernel

def deepTree : Tree :=
  ((Tree.empty.put ["tasks"] .directory).put ["tasks", "samples"] .directory).put ["tasks", "samples", "1.in"] (.file .empty)

theorem deepTree_wellFormed : deepTree.WellFormed := by decide

/-- The root is a task, but behind so many slashes the path of the directory in it is too long. -/
theorem scan_not_opened :
    (deepTree.WellFormed ∧ deepTree.look (slashed "tasks" 4085) = .ok (["tasks"], .directory)) ∧
      scan deepTree (slashed "tasks" 4085) 0 = .error (.walk (slashed "tasks" 4085 ++ "samples") .nameTooLong) ∧
      ∀ tasks, scan deepTree (slashed "tasks" 4085) 0 ≠ .ok tasks := by
  have hshort : Tree.pathFits (slashed "tasks" 4085) := by
    rw [Tree.pathFits, utf8ByteSize_slashed]
    decide
  have hpath : pathTo (slashed "tasks" 4085) ["samples"] = slashed "tasks" 4085 ++ "samples" :=
    pathTo_slashed "tasks" 4084 (by decide)
  have hlong : ¬ Tree.pathFits (pathTo (slashed "tasks" 4085) ["samples"]) := by
    rw [hpath, Tree.pathFits, String.utf8ByteSize_append, utf8ByteSize_slashed]
    decide
  have hroot : deepTree.look (slashed "tasks" 4085) = .ok (["tasks"], .directory) := Tree.look_slashed rfl hshort
  have hfails : scan deepTree (slashed "tasks" 4085) 0 = .error (.walk (slashed "tasks" 4085 ++ "samples") .nameTooLong) := by
    obtain ⟨way, hdir, hfails, hscan⟩ := @scan_of_long _ _ 0 _ deepTree_wellFormed.fromRoot hroot
      fun hopen => hlong (hopen ["samples"] rfl)
    -- No other directory is there.
    have hways : ∀ way ∈ deepTree.directoriesBelow ["tasks"], way = ["samples"] := by decide
    by_cases hnil : way = []
    · rw [hnil] at hfails
      exact absurd hshort hfails
    · obtain rfl := hways way (deepTree_wellFormed.mem_directoriesBelow.mpr ⟨hnil, hdir⟩)
      rw [hscan, hpath]
  refine ⟨⟨deepTree_wellFormed, hroot⟩, hfails, fun tasks hok => ?_⟩
  rw [hfails] at hok
  cases hok

end ContestTests.Task
