import ContestTests.Proofs.Conversion.Standing
import ContestTests.Proofs.Tree.Absolute

/-!
# Conversions at absolute paths

A conversion from and to absolute paths goes as it does with relative paths from the root. Where relative paths start
nowhere, no conversion to a relative path ends well. So what a conversion that ends well does to the files can be
said as if relative paths always started in a directory.
-/

namespace ContestTests.Conversion

open ContestTests.Path

variable {t t' : Tree} {o : Options} {c : Candidate} {m : TaskMatch} {tr : Transfer} {trs : List Transfer}
  {tasks : List TaskMatch} {mode : TransferMode} {source target path : String} {p p' : Progress} {w w' : Work Unit}
  {report : Report}

-- ---------------------------------------------------------------------------
-- Scanning
-- ---------------------------------------------------------------------------

theorem isAbsolute_pathTo (h : isAbsolute path) (way : Key) : isAbsolute (Task.pathTo path way) := by
  induction way generalizing path with
  | nil => exact h
  | cons name way ih => exact ih (Tree.isAbsolute_of_join h name)

theorem list_fromRoot (h : isAbsolute path) : t.fromRoot.list path = t.list path := by
  rw [Tree.list, Tree.list, Tree.directoryKey_fromRoot h]
  rfl

theorem walk_fromRoot (h : isAbsolute path) (depth : Nat) (key : Key) :
    Task.walk t.fromRoot depth key path = Task.walk t depth key path := by
  induction depth generalizing key path with
  | zero => rfl
  | succ depth ih =>
    have hbelow (name : String) (key : Key) := ih (Tree.isAbsolute_of_join h name) key
    simp only [Task.walk, list_fromRoot h, hbelow]
    rfl

theorem listFiles_fromRoot (h : isAbsolute path) : Task.listFiles t.fromRoot path = Task.listFiles t path := by
  rw [Task.listFiles, Task.listFiles, Tree.look_fromRoot h]
  cases t.look path with
  | error fault => rfl
  | ok found =>
    dsimp only
    rw [walk_fromRoot h]
    rfl

theorem collect_fromRoot (h : isAbsolute path) (key : Key) (level : Nat) (mets : List (Except Failure Key)) :
    Task.collect t.fromRoot path key level mets = Task.collect t path key level mets := by
  induction mets with
  | nil => rfl
  | cons met mets ih =>
    rw [Task.collect, Task.collect]
    refine bind_congr fun way => ?_
    have hthere : t.fromRoot.isDirectoryAt (key ++ way) = t.isDirectoryAt (key ++ way) := rfl
    rw [hthere, ih, listFiles_fromRoot (isAbsolute_pathTo h way)]

theorem scan_fromRoot (h : isAbsolute path) (level : Nat) :
    Task.scan t.fromRoot path level = Task.scan t path level := by
  rw [Task.scan, Task.scan, Tree.directoryKey_fromRoot h]
  cases t.directoryKey path with
  | error fault => rfl
  | ok key =>
    dsimp only
    rw [walk_fromRoot h, collect_fromRoot h]

-- ---------------------------------------------------------------------------
-- Transfers
-- ---------------------------------------------------------------------------

theorem goes_fromRoot (hsource : isAbsolute source) (htarget : isAbsolute target) (h : Goes t source target mode t') :
    Goes t.fromRoot source target mode t'.fromRoot := by
  cases h with
  | copied hcopy => exact .copied (by rw [Tree.copyFile_fromRoot hsource htarget, hcopy]; rfl)
  | renamed hrename => exact .renamed (by rw [Tree.rename_fromRoot hsource htarget, hrename]; rfl)
  | @replaced t₁ _ fault hrename hcopy hremove =>
    refine @Goes.replaced _ _ _ t₁.fromRoot _ fault ?_ ?_ ?_
    · rw [Tree.rename_fromRoot hsource htarget, hrename]
      rfl
    · rw [Tree.copyFile_fromRoot hsource htarget, hcopy]
      rfl
    · rw [Tree.removeFile_fromRoot hsource, hremove]
      rfl

theorem transferFile_fromRoot (hsource : isAbsolute source) (htarget : isAbsolute target)
    (h : transferFile mode source target t = .ok () t') :
    transferFile mode source target t.fromRoot = .ok () t'.fromRoot := by
  obtain ⟨hfree, hgoes⟩ := transferFile_eq_ok.mp h
  exact transferFile_eq_ok.mpr ⟨(Tree.exists?_fromRoot htarget).trans hfree, goes_fromRoot hsource htarget hgoes⟩

-- ---------------------------------------------------------------------------
-- Works
-- ---------------------------------------------------------------------------

def Progress.fromRoot (p : Progress) : Progress := { p with tree := p.tree.fromRoot }

theorem Progress.count_fromRoot (p : Progress) (tr : Transfer) : p.fromRoot.count tr = (p.count tr).fromRoot := by
  rw [count, count]
  split <;> rfl

/-- What the work does, it does with relative paths from the root as well. -/
def Rootable (w : Work Unit) : Prop := ∀ p p', w p = .ok () p' → w p.fromRoot = .ok () p'.fromRoot

theorem Rootable.bind (h : Rootable w) (h' : Rootable w') : Rootable (w >>= fun _ => w') := by
  intro p p' hok
  obtain ⟨u, p₁, hw, hw'⟩ := stateBind_eq_ok.mp hok
  exact stateBind_eq_ok.mpr ⟨u, p₁.fromRoot, h p p₁ hw, h' p₁ p' hw'⟩

theorem rootable_ensureDir (h : isAbsolute path) : Rootable (Work.ensureDir path) := by
  intro p p' hok
  have hexists : p.fromRoot.tree.exists? path = p.tree.exists? path := Tree.exists?_fromRoot h
  rw [Work.ensureDir] at hok ⊢
  rw [hexists]
  split at hok
  · rename_i hthere
    cases hok
    rw [if_pos hthere]
  · rename_i hmissing
    rw [if_neg hmissing]
    rw [Work.ofAction] at hok ⊢
    split at hok
    · rename_i t₁ hmade
      cases hok
      have hroot : Action.createDirs path p.fromRoot.tree = .ok () t₁.fromRoot := Tree.rootable_createDirs h _ _ hmade
      rw [hroot]
      rfl
    · cases hok

theorem rootable_transfer (hsource : isAbsolute tr.source) (htarget : isAbsolute tr.target) :
    Rootable (Work.transfer mode tr) := by
  intro p p' hok
  obtain ⟨t₁, hdone, rfl⟩ := Work.transfer_eq_ok hok
  have hroot : transferFile mode tr.source tr.target p.fromRoot.tree = .ok () t₁.fromRoot :=
    transferFile_fromRoot hsource htarget hdone
  rw [Work.transfer, hroot]
  exact congrArg (EStateM.Result.ok ()) (Progress.count_fromRoot { p with tree := t₁, log := p.log ++ [tr] } tr)

theorem rootable_transferAll (h : ∀ tr ∈ trs, isAbsolute tr.source ∧ isAbsolute tr.target) :
    Rootable (Work.transferAll mode trs) := by
  induction trs with
  | nil =>
    intro p p' hok
    cases hok
    rfl
  | cons tr trs ih =>
    obtain ⟨⟨hsource, htarget⟩, hrest⟩ := List.forall_mem_cons.mp h
    exact (rootable_transfer hsource htarget).bind (ih hrest)

theorem rootable_writeMarks (h : isAbsolute (o.marksPath m)) : Rootable (Work.writeMarks o m) := by
  intro p p' hok
  cases hwrite : p.tree.write (o.marksPath m) (marksContent m) with
  | error fault =>
    rw [writeMarks_error hwrite] at hok
    cases hok
  | ok t₁ =>
    rw [writeMarks_ok hwrite] at hok
    cases hok
    have hroot : p.fromRoot.tree.write (o.marksPath m) (marksContent m) = .ok t₁.fromRoot := by
      show p.tree.fromRoot.write _ _ = _
      rw [Tree.write_fromRoot h, hwrite]
      rfl
    rw [writeMarks_ok hroot]
    rfl

theorem isAbsolute_targetDir (h : isAbsolute o.workDir) (task : String) : isAbsolute (o.targetDir task) :=
  Tree.isAbsolute_directory h task

theorem isAbsolute_transfers (hfrom : isAbsolute o.taskDir) (hto : isAbsolute o.workDir) (htr : tr ∈ o.transfers m) :
    isAbsolute tr.source ∧ isAbsolute tr.target := by
  rcases mem_transfersFrom.mp htr with ⟨j, record, -, rfl⟩ | ⟨-, j, record, -, -, rfl⟩
  all_goals exact ⟨Tree.isAbsolute_of_join (Tree.isAbsolute_directory hfrom _) _,
    Tree.isAbsolute_of_join (isAbsolute_targetDir hto _) _⟩

theorem rootable_tasks (hfrom : isAbsolute o.taskDir) (hto : isAbsolute o.workDir) (tasks : List TaskMatch) :
    Rootable (Work.tasks o tasks) := by
  induction tasks with
  | nil =>
    intro p p' hok
    cases hok
    rfl
  | cons m tasks ih =>
    have htransfers : Rootable (Work.transferAll o.mode (o.transfers m)) :=
      rootable_transferAll fun tr htr => isAbsolute_transfers hfrom hto htr
    have hmarks : Rootable (Work.writeMarks o m) :=
      rootable_writeMarks (Tree.isAbsolute_of_join (isAbsolute_targetDir hto _) _)
    exact ((rootable_ensureDir (isAbsolute_targetDir hto _)).bind (htransfers.bind hmarks)).bind ih

-- ---------------------------------------------------------------------------
-- Where relative paths start nowhere
-- ---------------------------------------------------------------------------

theorem ensureDir_of_no_current (hcurrent : p.tree.find? p.tree.current ≠ some .directory) (h : isAbsolute path = false)
    (hne : path ≠ "") : Work.ensureDir path p ≠ .ok () p' := by
  intro hok
  rw [Work.ensureDir] at hok
  split at hok
  · rename_i hexists
    obtain ⟨-, hlocate, -⟩ := Tree.exists?_iff.mp hexists
    exact Tree.locate_of_no_current hcurrent h hlocate
  · rw [Work.ofAction] at hok
    split at hok
    · rename_i t₁ hmade
      exact Tree.createDirs_of_no_current hcurrent h hne hmade
    · cases hok

/-- A conversion that ends well goes to an absolute path, if there is no directory where relative paths start. -/
theorem isAbsolute_of_no_current (hcurrent : t.find? t.current ≠ some .directory) (hne : o.workDir ≠ "")
    (hm : m ∈ c.tasks) (hways : ∀ m ∈ c.tasks, ∃ way, IsWay way ∧ m.task = Task.wayText way)
    (hok : (apply t o c).result = .ok report) : isAbsolute o.workDir := by
  cases habs : isAbsolute o.workDir with
  | true => rfl
  | false =>
    obtain ⟨p, hwork⟩ := tasks_of_apply hok
    obtain ⟨first, more, htasks⟩ := List.exists_cons_of_ne_nil (List.ne_nil_of_mem hm)
    obtain ⟨way, hway, hname⟩ := hways first (htasks ▸ List.mem_cons_self)
    rw [htasks] at hwork
    obtain ⟨_, p₁, htask, -⟩ := stateBind_eq_ok.mp hwork
    obtain ⟨_, p₂, hensure, -⟩ := stateBind_eq_ok.mp htask
    rw [Options.targetDir, hname] at hensure
    have hdirectory : isAbsolute (Task.directory o.workDir (Task.wayText way)) = false := by
      by_cases hnil : way = []
      · rwa [hnil]
      · rwa [Tree.directory_of_ne_nil _ hway hnil, isAbsolute_join (isAbsolute_wayText hway)]
    exact absurd hensure (ensureDir_of_no_current hcurrent hdirectory (Tree.directory_ne_empty hne hway))

-- ---------------------------------------------------------------------------
-- Conversions that end well
-- ---------------------------------------------------------------------------

/-- A tree in which relative paths start in a directory, with what stands in another one and the same meaning of these
paths. -/
structure Stead (t : Tree) (o : Options) (start : Tree) : Prop where
  wellFormed : start.WellFormed
  find? : start.find? = t.find?
  keyOf_taskDir : start.keyOf o.taskDir = t.keyOf o.taskDir
  keyOf_workDir : start.keyOf o.workDir = t.keyOf o.workDir
  scan : ∀ level, Task.scan start o.taskDir level = Task.scan t o.taskDir level
  exists?_workDir : start.exists? o.workDir = t.exists? o.workDir

theorem Stead.self (ht : t.WellFormed) (o : Options) : Stead t o t := ⟨ht, rfl, rfl, rfl, fun _ => rfl, rfl⟩

/-- A conversion that ends well does to the files what a run through its script does, be it in another tree. -/
theorem exists_run (ht : t.fromRoot.WellFormed) {base : Key} (hroot : t.look o.taskDir = .ok (base, .directory))
    (hne : o.workDir ≠ "") (hm : m ∈ c.tasks) (hways : ∀ m ∈ c.tasks, ∃ way, IsWay way ∧ m.task = Task.wayText way)
    (hok : (apply t o c).result = .ok report) :
    ∃ start after, Stead t o start ∧ (∀ m ∈ c.tasks, start.exists? (o.marksPath m) = false) ∧
      Run o start (script o c.tasks) after ∧
      ((∃ deeds, Underway start o deeds after) → (apply t o c).tree.fileAt = after.fileAt) := by
  obtain ⟨p, hwork, htree⟩ := tree_of_ok hok
  have hfree := (check_eq_ok.mp (check_of_ok hok)).2
  have hfiles (hafter : p.tree.fromRoot.WellFormed) : (apply t o c).tree.fileAt = p.tree.fileAt := by
    rw [htree]
    split
    · exact removeEmptyDirs_fileAt_rooted hafter o.taskDir
    · rfl
  by_cases hcurrent : t.find? t.current = some .directory
  · have hstart : t.WellFormed := ht.of_fromRoot hcurrent
    exact ⟨t, p.tree, .self hstart o, hfree, run_of_tasks hwork,
      fun ⟨_, hafter⟩ => hfiles hafter.wellFormed.fromRoot⟩
  · have hto := isAbsolute_of_no_current hcurrent hne hm hways hok
    have hfrom : isAbsolute o.taskDir := by
      cases habs : isAbsolute o.taskDir with
      | true => rfl
      | false => exact absurd (Tree.look_eq_ok.mp hroot).1 (Tree.locate_of_no_current hcurrent habs)
    refine ⟨t.fromRoot, p.tree.fromRoot, ⟨ht, rfl, Tree.keyOf_fromRoot hfrom, Tree.keyOf_fromRoot hto,
      scan_fromRoot hfrom, Tree.exists?_fromRoot hto⟩, fun m hm => ?_, ?_, fun ⟨_, hafter⟩ => hfiles hafter.wellFormed⟩
    · have habs : isAbsolute (o.marksPath m) := Tree.isAbsolute_of_join (isAbsolute_targetDir hto _) _
      rw [Tree.exists?_fromRoot habs]
      exact hfree m hm
    · exact run_of_tasks (rootable_tasks hfrom hto c.tasks _ _ hwork)

end ContestTests.Conversion
