import ContestTests.Proofs.Success
import ContestTests.Proofs.Task.Walking

/-!
# What scanning finds

The tasks are the directories of one depth, each once, and the files of a task are those below its
directory. Scanning opens every directory at or below its root, so it succeeds if none of their paths is too long and
there is a task.
-/

namespace ContestTests.Task

open ContestTests.Path

variable {t t' : Tree} {key key' base way : Key} {level : Nat} {root path file : String} {tasks : List Task} {task : Task}
  {files : List String} {failure : Failure} {ways : List Key} {mets : List (Except Failure Key)}

-- ---------------------------------------------------------------------------
-- Directories of a level
-- ---------------------------------------------------------------------------

def isTask (t : Tree) (base : Key) (level : Nat) (way : Key) : Bool :=
  way.length == level && t.isDirectoryAt (base ++ way)

def waysAt (t : Tree) (key : Key) (level : Nat) : List Key := (waysBelow t level key).filter (isTask t key level)

theorem mem_waysAt (ht : t.WellFormed) (hdir : t.find? key = some .directory) :
    way ∈ waysAt t key level ↔ way.length = level ∧ t.find? (key ++ way) = some .directory := by
  rw [waysAt, List.mem_filter, mem_waysBelow ht hdir, isTask, Bool.and_eq_true, beq_iff_eq, Tree.isDirectoryAt_iff]
  constructor
  · exact And.right
  · rintro ⟨hlength, hfind⟩
    exact ⟨⟨Nat.le_of_eq hlength, _, hfind⟩, hlength, hfind⟩

theorem waysAt_increasing (ht : t.WellFormed) (key : Key) (level : Nat) : (waysAt t key level).Pairwise (· < ·) :=
  (waysBelow_increasing ht level key).filter _

theorem nodup_of_increasing {ways : List Key} (h : ways.Pairwise (· < ·)) : ways.Nodup :=
  h.imp fun {a b} hlt (he : a = b) => List.lt_irrefl b (he ▸ hlt)

theorem waysAt_nodup (ht : t.WellFormed) (key : Key) (level : Nat) : (waysAt t key level).Nodup :=
  nodup_of_increasing (waysAt_increasing ht key level)

theorem waysAt_zero (hdir : t.find? key = some .directory) : waysAt t key 0 = [[]] := by
  have hway : t.isDirectoryAt key := Tree.isDirectoryAt_iff.mpr hdir
  simp [waysAt, waysBelow, isTask, hway]

theorem waysAt_congr (ht : t.WellFormed) (ht' : t'.WellFormed) (hdir : t.find? key = some .directory)
    (hdir' : t'.find? key' = some .directory)
    (h : ∀ way, way.length = level →
      (t'.find? (key' ++ way) = some .directory ↔ t.find? (key ++ way) = some .directory)) :
    waysAt t' key' level = waysAt t key level := by
  have hmem (way : Key) : way ∈ waysAt t' key' level ↔ way ∈ waysAt t key level := by
    rw [mem_waysAt ht hdir, mem_waysAt ht' hdir']
    exact and_congr_right (h way)
  have hperm := (List.perm_ext_iff_of_nodup (waysAt_nodup ht' key' level) (waysAt_nodup ht key level)).mpr hmem
  refine hperm.eq_of_pairwise (fun a b _ _ hab hba => ?_) (waysAt_increasing ht' key' level) (waysAt_increasing ht key level)
  exact absurd hba (List.lt_asymm hab)

theorem isWay_of_find? {entry : Entry} (ht : t.WellFormed) (h : t.find? (key ++ way) = some entry) : IsWay way :=
  fun name hname => (ht.fits_of_find? h name (List.mem_append_right _ hname)).isName

theorem waysAt_fromRoot (t : Tree) (key : Key) (level : Nat) : waysAt t.fromRoot key level = waysAt t key level := by
  rw [waysAt, waysAt, waysBelow_fromRoot]
  rfl

-- ---------------------------------------------------------------------------
-- Files of a directory
-- ---------------------------------------------------------------------------

def filesAt (t : Tree) (key : Key) : List String :=
  sortTexts (((waysBelow t (t.depthBelow key + 1) key).filter fun way => t.isFileAt (key ++ way)).map wayText)

theorem mem_waysBelow_of_file (ht : t.WellFormed) (hdir : t.find? key = some .directory) {content : ByteArray}
    (hfile : t.find? (key ++ way) = some (.file content)) : way ∈ waysBelow t (t.depthBelow key + 1) key := by
  refine (mem_waysBelow ht hdir).mpr ⟨?_, _, hfile⟩
  rcases List.eq_nil_or_concat way with rfl | ⟨above, name, rfl⟩
  · exact Nat.zero_le _
  · rw [List.concat_eq_append, ← List.append_assoc] at hfile
    rw [List.concat_eq_append, List.length_append]
    exact Nat.succ_le_succ (ht.length_le_depthBelow (ht.find?_parent hfile))

theorem mem_filesAt (ht : t.WellFormed) (hdir : t.find? key = some .directory) : file ∈ filesAt t key ↔
    ∃ way, way ≠ [] ∧ (∃ content, t.find? (key ++ way) = some (.file content)) ∧ wayText way = file := by
  simp only [filesAt, (sortTexts_perm _).mem_iff, List.mem_map, List.mem_filter, Tree.isFileAt_iff]
  constructor
  · rintro ⟨way, ⟨-, hfile⟩, htext⟩
    refine ⟨way, ?_, hfile, htext⟩
    rintro rfl
    obtain ⟨content, hfile⟩ := hfile
    rw [List.append_nil, hdir] at hfile
    cases hfile
  · rintro ⟨way, -, ⟨content, hfile⟩, htext⟩
    exact ⟨way, ⟨mem_waysBelow_of_file ht hdir hfile, content, hfile⟩, htext⟩

theorem filesAt_nodup (ht : t.WellFormed) (key : Key) : (filesAt t key).Nodup := by
  rw [filesAt, (sortTexts_perm _).nodup_iff]
  have hways := nodup_of_increasing ((waysBelow_increasing ht (t.depthBelow key + 1) key).filter
    fun way => t.isFileAt (key ++ way))
  refine List.pairwise_map.mpr (hways.imp_of_mem fun {a b} ha hb hne he => hne ?_)
  obtain ⟨_, hfile⟩ := Tree.isFileAt_iff.mp (List.mem_filter.mp ha).2
  obtain ⟨_, hfile'⟩ := Tree.isFileAt_iff.mp (List.mem_filter.mp hb).2
  exact wayText_injective (isWay_of_find? ht hfile) (isWay_of_find? ht hfile') he

theorem filesAt_sorted (t : Tree) (key : Key) : (filesAt t key).Pairwise fun a b => a ≤ b := sortTexts_sorted _

theorem filesAt_increasing (ht : t.WellFormed) (key : Key) : (filesAt t key).Pairwise (· < ·) := by
  refine (filesAt_nodup ht key).imp₂ (fun a b hne hle => ?_) (filesAt_sorted t key)
  exact String.not_le.mp fun hba => hne (String.le_antisymm hle hba)

theorem filesAt_fromRoot (t : Tree) (key : Key) : filesAt t.fromRoot key = filesAt t key := by
  rw [filesAt, filesAt]
  exact congrArg (fun ways => sortTexts ((ways.filter fun way => t.isFileAt (key ++ way)).map wayText))
    (waysBelow_fromRoot t _ key)

theorem listFiles_sorted (h : listFiles t path = .ok files) : files.Pairwise fun a b => a ≤ b := by
  unfold listFiles at h
  split at h
  · cases h
  · obtain ⟨ways, -, h⟩ := bind_eq_ok.mp h
    cases h
    exact sortTexts_sorted _

-- ---------------------------------------------------------------------------
-- Tasks among what is met
-- ---------------------------------------------------------------------------

theorem collect_ok (ways : List Key) : collect t root base level (ways.map .ok) =
    (ways.filter (isTask t base level)).mapM fun way => (listFiles t (pathTo root way)).map (Task.mk (wayText way)) := by
  induction ways with
  | nil => rfl
  | cons way ways ih =>
    rw [List.map_cons, collect, List.filter_cons, ih, isTask]
    dsimp only [bind, Except.bind]
    split
    · rw [List.mapM_cons]
      cases listFiles t (pathTo root way) <;> rfl
    · rfl

theorem exists_collect_error (h : .error failure ∈ mets) : ∃ failure', collect t root base level mets = .error failure' := by
  induction mets with
  | nil => cases h
  | cons met mets ih =>
    rw [collect]
    cases met with
    | error failure' => exact ⟨failure', rfl⟩
    | ok way =>
      obtain ⟨failure', hrest⟩ := ih ((List.mem_cons.mp h).resolve_left (by simp))
      rw [hrest]
      dsimp only [bind, Except.bind]
      split
      · cases listFiles t (pathTo root way) with
        | error failure'' => exact ⟨failure'', rfl⟩
        | ok files => exact ⟨failure', rfl⟩
      · exact ⟨failure', rfl⟩

theorem collect_eq_error (h : collect t root base level mets = .error failure) : .error failure ∈ mets ∨
    ∃ way, .ok way ∈ mets ∧ isTask t base level way ∧ listFiles t (pathTo root way) = .error failure := by
  induction mets with
  | nil => cases h
  | cons met mets ih =>
    rw [collect] at h
    have hrest (h : collect t root base level mets = .error failure) : .error failure ∈ met :: mets ∨
        ∃ way, .ok way ∈ met :: mets ∧ isTask t base level way ∧ listFiles t (pathTo root way) = .error failure := by
      rcases ih h with hmet | ⟨way, hway, hfails⟩
      · exact .inl (List.mem_cons_of_mem met hmet)
      · exact .inr ⟨way, List.mem_cons_of_mem met hway, hfails⟩
    cases met with
    | error failure' =>
      cases h
      exact .inl List.mem_cons_self
    | ok way =>
      dsimp only [bind, Except.bind] at h
      split at h
      · rename_i htask
        cases hlist : listFiles t (pathTo root way) with
        | error failure' =>
          rw [hlist] at h
          cases h
          exact .inr ⟨way, List.mem_cons_self, htask, hlist⟩
        | ok files =>
          rw [hlist] at h
          rcases bind_eq_error.mp h with h | ⟨tasks, -, h⟩
          · exact hrest h
          · cases h
      · exact hrest h

theorem listed_of_collect (h : collect t root base level mets = .ok tasks) (htask : task ∈ tasks) :
    ∃ path, listFiles t path = .ok task.files := by
  induction mets generalizing tasks with
  | nil =>
    cases h
    cases htask
  | cons met mets ih =>
    obtain ⟨way, -, h⟩ := bind_eq_ok.mp h
    split at h
    · obtain ⟨files, hlist, h⟩ := bind_eq_ok.mp h
      obtain ⟨more, hmore, h⟩ := bind_eq_ok.mp h
      cases h
      rcases List.mem_cons.mp htask with rfl | htask
      · exact ⟨_, hlist⟩
      · exact ih hmore htask
    · exact ih h htask

-- ---------------------------------------------------------------------------
-- Directories that can be opened
-- ---------------------------------------------------------------------------

/-- No directory at or below the root has a path that is too long. -/
def Openable (t : Tree) (root : String) (base : Key) : Prop :=
  ∀ way, t.find? (base ++ way) = some .directory → Tree.pathFits (pathTo root way)

theorem openable_iff (ht : t.fromRoot.WellFormed) (hbase : t.find? base = some .directory) :
    Openable t root base ↔ ∀ way ∈ [] :: t.directoriesBelow base, Tree.pathFits (pathTo root way) := by
  refine forall_congr' fun way => imp_congr_left ?_
  rw [List.mem_cons]
  constructor
  · intro hdir
    by_cases hnil : way = []
    · exact .inl hnil
    · exact .inr (ht.mem_directoriesBelow.mpr ⟨hnil, hdir⟩)
  · rintro (rfl | hmem)
    · rwa [List.append_nil]
    · exact (ht.mem_directoriesBelow.mp hmem).2

section

variable (ht : t.fromRoot.WellFormed) (hroot : t.locate root = .ok base)

include ht hroot

theorem listFiles_of_fits (hdir : t.find? (base ++ way) = some .directory)
    (hfits : ∀ down, t.find? (base ++ (way ++ down)) = some .directory → Tree.pathFits (pathTo root (way ++ down))) :
    listFiles t (pathTo root way) = .ok (filesAt t (base ++ way)) := by
  have hself : Tree.pathFits (pathTo root way) := by
    have hfits := hfits []
    rw [List.append_nil] at hfits
    exact hfits hdir
  rw [listFiles, Tree.look_pathTo ht hroot hself hdir]
  dsimp only
  rw [walk_of_fits ht hroot hdir fun down _ => hfits down, mapM_id_ok]
  rfl

theorem long_of_listFiles (hdir : t.find? (base ++ way) = some .directory)
    (h : listFiles t (pathTo root way) = .error failure) :
    ∃ down, t.find? (base ++ (way ++ down)) = some .directory ∧ ¬ Tree.pathFits (pathTo root (way ++ down)) ∧
      failure = .walk (pathTo root (way ++ down)) .nameTooLong := by
  by_cases hshort : Tree.pathFits (pathTo root way)
  · rw [listFiles, Tree.look_pathTo ht hroot hshort hdir] at h
    rcases bind_eq_error.mp h with h | ⟨ways, -, h⟩
    · obtain ⟨met, hmet, h⟩ := exists_of_mapM_eq_error h
      cases h
      exact long_of_walk ht hroot hdir hmet
    · cases h
  · rw [listFiles, Tree.look_pathTo_of_long ht hroot hshort hdir] at h
    cases h
    exact ⟨[], by rwa [List.append_nil], by rwa [List.append_nil], by rw [List.append_nil]⟩

theorem exists_listFiles_error (hdir : t.find? (base ++ (way ++ down)) = some .directory)
    (hlong : ¬ Tree.pathFits (pathTo root (way ++ down))) : ∃ failure, listFiles t (pathTo root way) = .error failure := by
  have habove : t.find? (base ++ way) = some .directory := by
    rw [← List.append_assoc] at hdir
    exact ht.find?_of_prefix hdir (List.prefix_append _ _)
  by_cases hshort : Tree.pathFits (pathTo root way)
  · have hdepth : down.length ≤ t.depthBelow (base ++ way) := by
      rw [← List.append_assoc] at hdir
      exact ht.length_le_depthBelow hdir
    obtain ⟨failure, hmet⟩ := exists_walk_error ht hroot (Nat.lt_succ_of_le hdepth) hdir hlong
    obtain ⟨failure', hfails⟩ := @exists_mapM_eq_error _ _ _ _ _ id _ hmet rfl
    rw [listFiles, Tree.look_pathTo ht hroot hshort habove]
    dsimp only
    rw [hfails]
    exact ⟨failure', rfl⟩
  · rw [listFiles, Tree.look_pathTo_of_long ht hroot hshort habove]
    exact ⟨_, rfl⟩

theorem walk_root (hbase : t.find? base = some .directory)
    (hfits : ∀ way, way.length < level → t.find? (base ++ way) = some .directory → Tree.pathFits (pathTo root way)) :
    walk t level base root = (waysBelow t level base).map .ok := by
  have hwalk := @walk_of_fits t root base [] _ level ht hroot (by rwa [List.append_nil]) hfits
  rwa [List.append_nil] at hwalk

theorem collect_of_openable (hbase : t.find? base = some .directory) (hopen : Openable t root base) (level : Nat) :
    collect t root base level (walk t level base root) =
      .ok ((waysAt t base level).map fun way => ⟨wayText way, filesAt t (base ++ way)⟩) := by
  rw [walk_root ht hroot hbase fun way _ => hopen way, collect_ok, ← waysAt, mapM_eq_ok]
  refine List.forall₂_map_right_iff.mpr (List.forall₂_same.mpr fun way hway => ?_)
  rw [← waysAt_fromRoot] at hway
  obtain ⟨-, hdir⟩ := (mem_waysAt ht hbase).mp hway
  rw [listFiles_of_fits ht hroot hdir fun down hbelow => hopen _ hbelow]
  rfl

theorem openable_of_collect (hbase : t.find? base = some .directory)
    (h : collect t root base level (walk t level base root) = .ok tasks) : Openable t root base := by
  have hmets {failure : Failure} : .error failure ∉ walk t level base root := fun hmet => by
    obtain ⟨failure', hfails⟩ := @exists_collect_error t base level root _ _ hmet
    cases h.symm.trans hfails
  have habove (way : Key) (hdepth : way.length < level) (hdir : t.find? (base ++ way) = some .directory) :
      Tree.pathFits (pathTo root way) := by
    by_contra hlong
    obtain ⟨failure, hmet⟩ := @exists_walk_error t root base [] way level ht hroot hdepth hdir hlong
    rw [List.append_nil] at hmet
    exact hmets hmet
  intro way hdir
  by_contra hlong
  rcases Nat.lt_or_ge way.length level with hdepth | hdepth
  · exact hlong (habove way hdepth hdir)
  · -- The directory is at or below a task, whose files can not be listed.
    rw [walk_root ht hroot hbase habove, collect_ok, ← waysAt] at h
    rw [← List.take_append_drop level way] at hdir hlong
    have htask : way.take level ∈ waysAt t base level := by
      rw [← waysAt_fromRoot]
      refine (mem_waysAt ht hbase).mpr ⟨List.length_take_of_le hdepth, ?_⟩
      rw [← List.append_assoc] at hdir
      exact ht.find?_of_prefix hdir (List.prefix_append _ _)
    obtain ⟨failure, hfails⟩ := exists_listFiles_error ht hroot hdir hlong
    obtain ⟨failure', he⟩ := @exists_mapM_eq_error _ _ _ _ _
      (fun way => (listFiles t (pathTo root way)).map (Task.mk (wayText way))) _ htask (by rw [hfails]; rfl)
    cases h.symm.trans he

theorem collect_of_long (hbase : t.find? base = some .directory) (hopen : ¬ Openable t root base) (level : Nat) :
    ∃ way, t.find? (base ++ way) = some .directory ∧ ¬ Tree.pathFits (pathTo root way) ∧
      collect t root base level (walk t level base root) = .error (.walk (pathTo root way) .nameTooLong) := by
  cases h : collect t root base level (walk t level base root) with
  | ok tasks => exact absurd (openable_of_collect ht hroot hbase h) hopen
  | error failure =>
    rcases collect_eq_error h with hmet | ⟨way, -, htask, hlist⟩
    · obtain ⟨down, hdir, hlong, rfl⟩ := @long_of_walk t root base [] _ level failure ht hroot
        (by rwa [List.append_nil]) (by rwa [List.append_nil])
      exact ⟨down, hdir, hlong, rfl⟩
    · have hdir := Tree.isDirectoryAt_iff.mp (Bool.and_eq_true_iff.mp htask).2
      obtain ⟨down, hbelow, hlong, rfl⟩ := long_of_listFiles ht hroot hdir hlist
      exact ⟨way ++ down, hbelow, hlong, rfl⟩

end

theorem scan_eq_ok (ht : t.fromRoot.WellFormed) (h : scan t root level = .ok tasks) :
    ∃ base, t.look root = .ok (base, .directory) ∧ Openable t root base ∧
      tasks = (waysAt t base level).map fun way => ⟨wayText way, filesAt t (base ++ way)⟩ := by
  unfold scan at h
  split at h
  · cases h
  · rename_i base hkey
    have hroot := Tree.directoryKey_eq_ok.mp hkey
    obtain ⟨hlocate, hbase⟩ := Tree.look_eq_ok.mp hroot
    obtain ⟨found, hcollect, h⟩ := bind_eq_ok.mp h
    have hopen := openable_of_collect ht hlocate hbase hcollect
    refine ⟨base, hroot, hopen, ?_⟩
    rw [collect_of_openable ht hlocate hbase hopen] at hcollect
    cases hcollect
    split at h
    · cases h
    · cases h
      rfl

theorem scan_sorted (h : scan t root level = .ok tasks) (htask : task ∈ tasks) :
    task.files.Pairwise fun a b => a ≤ b := by
  unfold scan at h
  split at h
  · cases h
  · obtain ⟨found, hcollect, h⟩ := bind_eq_ok.mp h
    split at h
    · cases h
    · cases h
      obtain ⟨path, hlist⟩ := listed_of_collect hcollect htask
      exact listFiles_sorted hlist

theorem scan_ne_nil (h : scan t root level = .ok tasks) : tasks ≠ [] := by
  unfold scan at h
  split at h
  · cases h
  · obtain ⟨found, -, h⟩ := bind_eq_ok.mp h
    split at h
    · cases h
    · rename_i hne
      cases h
      exact hne

theorem scan_of_ways (ht : t.fromRoot.WellFormed) (hroot : t.look root = .ok (base, .directory))
    (hopen : Openable t root base) (hne : waysAt t base level ≠ []) :
    scan t root level = .ok ((waysAt t base level).map fun way => ⟨wayText way, filesAt t (base ++ way)⟩) := by
  obtain ⟨hlocate, hbase⟩ := Tree.look_eq_ok.mp hroot
  obtain ⟨way, ways, hways⟩ := List.exists_cons_of_ne_nil hne
  rw [scan, Tree.directoryKey_eq_ok.mpr hroot]
  dsimp only
  rw [collect_of_openable ht hlocate hbase hopen, hways]
  rfl

theorem scan_of_none (ht : t.fromRoot.WellFormed) (hroot : t.look root = .ok (base, .directory))
    (hopen : Openable t root base) (hnil : waysAt t base level = []) :
    scan t root level = .error (.noTasks root level) := by
  obtain ⟨hlocate, hbase⟩ := Tree.look_eq_ok.mp hroot
  rw [scan, Tree.directoryKey_eq_ok.mpr hroot]
  dsimp only
  rw [collect_of_openable ht hlocate hbase hopen, hnil]
  rfl

theorem scan_of_long (ht : t.fromRoot.WellFormed) (hroot : t.look root = .ok (base, .directory))
    (hopen : ¬ Openable t root base) : ∃ way, t.find? (base ++ way) = some .directory ∧
      ¬ Tree.pathFits (pathTo root way) ∧ scan t root level = .error (.walk (pathTo root way) .nameTooLong) := by
  obtain ⟨hlocate, hbase⟩ := Tree.look_eq_ok.mp hroot
  obtain ⟨way, hdir, hlong, hfails⟩ := collect_of_long ht hlocate hbase hopen level
  refine ⟨way, hdir, hlong, ?_⟩
  rw [scan, Tree.directoryKey_eq_ok.mpr hroot]
  dsimp only
  rw [hfails]
  rfl

end ContestTests.Task
