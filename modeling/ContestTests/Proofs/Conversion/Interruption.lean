import ContestTests.Proofs.Conversion.Standing

/-!
# What an interrupted conversion leaves

A transfer that fails interrupts a conversion. By then the tasks before it have their files and their marks,
its own task has the files before it, and directories were made on the way to those tasks. Nothing else
has changed.
-/

namespace ContestTests

open ContestTests.Path

variable {t t' t₁ start : Tree} {path : String} {key : Key}

/-- The key of a first part of the path, which making its directory may have to make. -/
def Tree.OnWay (t : Tree) (path : String) (key : Key) : Prop :=
  ∃ first, first <+: components path ∧ key = first.foldl Tree.stepFrom t.current

namespace Conversion

variable {o : Options} {m : TaskMatch} {tr : Transfer} {deeds more ds ds' : List Deed} {tasks : List TaskMatch}
  {dirs dirs' : List String} {w w' : Work Unit} {p p' : Progress} {failure : Failure} {above : Action Unit}

-- ---------------------------------------------------------------------------
-- Files
-- ---------------------------------------------------------------------------

/-- A deed fills the place of its target, and a move empties that of its source. -/
def Deed.Touches (start : Tree) (o : Options) (deed : Deed) (key : Key) : Prop :=
  start.keyOf (deed.target o) = key ∨ o.mode = .move ∧ ∃ tr, deed = .transfer tr ∧ start.keyOf tr.source = key

theorem Run.untouched (h : Run o t deeds t') (hway : Underway start o deeds t)
    (hkey : ∀ deed ∈ deeds, ¬ deed.Touches start o key) : t'.fileAt key = t.fileAt key := by
  induction h with
  | done => rfl
  | directory hmake _ ih =>
    obtain ⟨hway₁, hfiles⟩ := hway.directory hmake
    rw [ih hway₁ hkey, hfiles]
  | @transfer t t₁ t' tr deeds htransfer _ ih =>
    obtain ⟨htr, hdeeds⟩ := List.forall_mem_cons.mp hkey
    obtain ⟨content, -, -, hway₁, hfiles⟩ := hway.transfer htransfer
    rw [ih hway₁ hdeeds, hfiles, transferred, if_neg, if_neg]
    · rintro ⟨hmove, rfl⟩
      exact htr (.inr ⟨hmove, tr, rfl, rfl⟩)
    · rintro rfl
      exact htr (.inl rfl)
  | @marks t t₁ t' m deeds hwrite _ ih =>
    obtain ⟨hm, hdeeds⟩ := List.forall_mem_cons.mp hkey
    obtain ⟨-, hway₁, hfiles⟩ := hway.marks hwrite
    rw [ih hway₁ hdeeds, hfiles, filled, if_neg]
    rintro rfl
    exact hm (.inl rfl)

-- ---------------------------------------------------------------------------
-- Directories
-- ---------------------------------------------------------------------------

/-- Each directory is an old one, or on the way to one of these. -/
def Lays (start : Tree) (dirs : List String) (t t' : Tree) : Prop :=
  ∀ key, t'.find? key = some .directory → t.find? key = some .directory ∨ ∃ path ∈ dirs, start.OnWay path key

theorem Lays.refl (start : Tree) (dirs : List String) (t : Tree) : Lays start dirs t t := fun _ => .inl

theorem Lays.trans (h : Lays start dirs t t₁) (h' : Lays start dirs' t₁ t') : Lays start (dirs ++ dirs') t t' := by
  intro key hdir
  rcases h' key hdir with hdir | ⟨path, hpath, hway⟩
  · rcases h key hdir with hdir | ⟨path, hpath, hway⟩
    · exact .inl hdir
    · exact .inr ⟨path, List.mem_append_left _ hpath, hway⟩
  · exact .inr ⟨path, List.mem_append_right _ hpath, hway⟩

theorem Lays.of_iff (h : ∀ key, t'.find? key = some .directory ↔ t.find? key = some .directory) :
    Lays start [] t t' := fun key hdir => .inl ((h key).mp hdir)

structure Paves (start : Tree) (path : String) (t t' : Tree) : Prop where
  wellFormed : t'.WellFormed
  current : t'.current = t.current
  find? : ∀ key, t'.find? key = t.find? key ∨
    t.find? key = none ∧ t'.find? key = some .directory ∧ start.OnWay path key

namespace Paves

theorem refl (ht : t.WellFormed) : Paves start path t t := ⟨ht, rfl, fun _ => .inl rfl⟩

theorem trans (h : Paves start path t t₁) (h' : Paves start path t₁ t') : Paves start path t t' := by
  refine ⟨h'.wellFormed, h'.current.trans h.current, fun key => ?_⟩
  rcases h.find? key with he | ⟨hnone, hdir, hway⟩
  · rw [← he]
    exact h'.find? key
  · rcases h'.find? key with he' | ⟨hnone', -⟩
    · exact .inr ⟨hnone, he'.trans hdir, hway⟩
    · rw [hdir] at hnone'
      cases hnone'

theorem lays (h : Paves start path t t') : Lays start [path] t t' := by
  intro key hdir
  rcases h.find? key with he | ⟨-, -, hway⟩
  · exact .inl (he ▸ hdir)
  · exact .inr ⟨path, List.mem_singleton_self path, hway⟩

end Paves

theorem paves_makeDir {part : String} (ht : t.WellFormed) (hmake : t.makeDir part = .ok t')
    (hpart : start.OnWay path (t.keyOf part)) : Paves start path t t' := by
  obtain ⟨hvacant, hbecomes⟩ := Tree.makeDir_becomes ht hmake
  refine ⟨hbecomes.wellFormed, hbecomes.current, fun k => ?_⟩
  rw [hbecomes.find?]
  split
  · rename_i hk
    subst hk
    exact .inr ⟨hvacant, rfl, hpart⟩
  · exact .inl rfl

/-- Whether it fails or not, the action makes directories on the way to a path only. -/
def Paving (start : Tree) (path : String) (action : Action Unit) : Prop :=
  ∀ t : Tree, t.WellFormed → t.current = start.current → Paves start path t (Tree.leaves (action t))

theorem onWay_of_partOf {part : String} (hpart : Tree.PartOf path part) (hcurrent : t.current = start.current) :
    start.OnWay path (t.keyOf part) := by
  rcases hpart with rfl | ⟨first, hfirst, hne, rfl⟩
  · exact ⟨_, List.prefix_rfl, by rw [← Tree.foldl_components, hcurrent]⟩
  · exact ⟨_, hfirst, by rw [Tree.keyOf_first t hne hfirst, hcurrent]⟩

theorem paves_of_makes (h : Tree.Makes (Tree.PartOf path) t t') (ht : t.WellFormed) (hcurrent : t.current = start.current) :
    Paves start path t t' := by
  induction h with
  | done t => exact .refl ht
  | made hpart hmake hmore ih =>
    have hpaves := paves_makeDir ht hmake (onWay_of_partOf hpart hcurrent)
    exact hpaves.trans (ih hpaves.wellFormed (hpaves.current.trans hcurrent))

theorem paving_createDirs (start : Tree) (path : String) : Paving start path (Action.createDirs path) :=
  fun t ht hcurrent => paves_of_makes (Tree.createDirs_makes path t) ht hcurrent

-- ---------------------------------------------------------------------------
-- Works that succeed
-- ---------------------------------------------------------------------------

/-- Work that, when it succeeds, has run through these deeds and made directories on the way to these only. -/
def Brings (o : Options) (w : Work Unit) (ds : List Deed) (dirs : List String) : Prop :=
  ∀ start more p p', Underway start o (ds ++ more) p.tree → w p = .ok () p' →
    Run o p.tree ds p'.tree ∧ Lays start dirs p.tree p'.tree ∧ p'.log = p.log ++ transfersOf ds ∧ (p.Counted → p'.Counted)

theorem Brings.bind (h : Brings o w ds dirs) (h' : Brings o w' ds' dirs') :
    Brings o (w >>= fun _ => w') (ds ++ ds') (dirs ++ dirs') := by
  intro start more p p' hway hok
  rw [List.append_assoc] at hway
  obtain ⟨⟨⟩, p₁, hfirst, hrest⟩ := stateBind_eq_ok.mp hok
  obtain ⟨hrun, hlays, hlog, hcounted⟩ := h start _ p p₁ hway hfirst
  obtain ⟨hrun', hlays', hlog', hcounted'⟩ := h' start _ p₁ p' (hrun.underway hway) hrest
  refine ⟨hrun.append hrun', hlays.trans hlays', ?_, fun hp => hcounted' (hcounted hp)⟩
  rw [hlog', hlog, transfersOf_append, List.append_assoc]

theorem brings_pure : Brings o (pure ()) [] [] := by
  intro start more p p' _ hok
  cases hok
  exact ⟨.done _, .refl _ _ _, (List.append_nil _).symm, id⟩

theorem brings_ensureDir (path : String) : Brings o (Work.ensureDir path) [] [path] := by
  intro start more p p' hway hok
  have hrun := (performs_ensureDir (o := o) path p).1 p' hok
  rw [Work.ensureDir] at hok
  split at hok
  · cases hok
    exact ⟨hrun, .refl _ _ _, (List.append_nil _).symm, id⟩
  · have hpaves := paving_createDirs start path p.tree hway.wellFormed hway.current
    rw [Work.ofAction] at hok
    split at hok
    · rename_i t₁ hresult
      cases hok
      rw [hresult] at hpaves
      exact ⟨hrun, hpaves.lays, (List.append_nil _).symm, fun hp => hp.withTree t₁⟩
    · cases hok

theorem brings_transfer (tr : Transfer) : Brings o (Work.transfer o.mode tr) [.transfer tr] [] := by
  intro start more p p' hway hok
  have hrun := (performs_transfer (o := o) tr p).1 p' hok
  obtain ⟨t₁, hresult, rfl⟩ := Work.transfer_eq_ok hok
  have hsource := hway.source_not_directory hresult
  refine ⟨hrun, ?_, Progress.count_log _ tr, fun hp => hp.told t₁ tr⟩
  rw [Progress.count_tree]
  exact .of_iff (transferFile_directories hway.wellFormed hsource hresult)

theorem brings_transferAll (trs : List Transfer) :
    Brings o (Work.transferAll o.mode trs) (trs.map .transfer) [] := by
  induction trs with
  | nil => exact brings_pure
  | cons tr trs ih => exact (brings_transfer tr).bind ih

theorem brings_writeMarks (m : TaskMatch) : Brings o (Work.writeMarks o m) [.marks m] [] := by
  intro start more p p' hway hok
  have hrun := (performs_writeMarks (o := o) m p).1 p' hok
  cases hresult : p.tree.write (o.marksPath m) (marksContent m) with
  | ok t₁ =>
    rw [writeMarks_ok hresult] at hok
    cases hok
    exact ⟨hrun, .of_iff (Tree.write_directories hway.wellFormed hresult), (List.append_nil _).symm,
      fun hp => hp.marked t₁ _⟩
  | error fault =>
    rw [writeMarks_error hresult] at hok
    cases hok

theorem brings_tasks (tasks : List TaskMatch) :
    Brings o (Work.tasks o tasks) (script o tasks) (tasks.map fun m => o.targetDir m.task) := by
  induction tasks with
  | nil => exact brings_pure
  | cons m tasks ih =>
    exact ((brings_ensureDir _).bind ((brings_transferAll _).bind (brings_writeMarks m))).bind ih

-- ---------------------------------------------------------------------------
-- Works that fail
-- ---------------------------------------------------------------------------

/-- The tasks before a task, and of this one the transfers up to some point. -/
def upTo (o : Options) (before : List TaskMatch) (m : TaskMatch) (first : List Transfer) : Work Unit := do
  Work.tasks o before
  Work.ensureDir (o.targetDir m.task)
  Work.transferAll o.mode first

/-- The failure is that of a transfer, and came when all before it was done. -/
structure Stopped (o : Options) (tasks : List TaskMatch) (p : Progress) (failure : Failure) (p' : Progress)
    (before : List TaskMatch) (m : TaskMatch) (behind : List TaskMatch) (first : List Transfer) (tr : Transfer)
    (rest : List Transfer) : Prop where
  tasks : tasks = before ++ m :: behind
  transfers : o.transfers m = first ++ tr :: rest
  reached : upTo o before m first p = .ok () p'
  failed : ∃ fault, transferFile o.mode tr.source tr.target p'.tree = .error fault p'.tree ∧
    failure = .transfer tr.source tr.target p'.transferred fault

def IsIo (failure : Failure) : Prop := ∃ fault, failure = .io fault

theorem isIo_of_ensureDir {path : String} (h : Work.ensureDir path p = .error failure p') : IsIo failure := by
  rw [Work.ensureDir] at h
  split at h
  · cases h
  · rw [Work.ofAction] at h
    split at h <;> cases h
    exact ⟨_, rfl⟩

theorem isIo_of_writeMarks (h : Work.writeMarks o m p = .error failure p') : IsIo failure := by
  cases hresult : p.tree.write (o.marksPath m) (marksContent m) with
  | ok t₁ =>
    rw [writeMarks_ok hresult] at h
    cases h
  | error fault =>
    rw [writeMarks_error hresult] at h
    cases h
    exact ⟨_, rfl⟩

theorem transferAll_eq_error {mode : TransferMode} {trs : List Transfer}
    (h : Work.transferAll mode trs p = .error failure p') : ∃ first tr rest fault, trs = first ++ tr :: rest ∧
      Work.transferAll mode first p = .ok () p' ∧ transferFile mode tr.source tr.target p'.tree = .error fault p'.tree ∧
        failure = .transfer tr.source tr.target p'.transferred fault := by
  induction trs generalizing p with
  | nil => cases h
  | cons tr trs ih =>
    rcases stateBind_eq_error.mp h with h | ⟨⟨⟩, p₁, hfirst, h⟩
    · obtain ⟨rfl, fault, hfault⟩ := Work.transfer_eq_error h
      exact ⟨[], tr, trs, fault, rfl, rfl, hfault⟩
    · obtain ⟨first, tr', rest, fault, rfl, hdone, hfault⟩ := ih h
      exact ⟨tr :: first, tr', rest, fault, rfl, stateBind_eq_ok.mpr ⟨(), p₁, hfirst, hdone⟩, hfault⟩

theorem tasks_eq_error (h : Work.tasks o tasks p = .error failure p') :
    IsIo failure ∨ ∃ before m behind first tr rest, Stopped o tasks p failure p' before m behind first tr rest := by
  induction tasks generalizing p with
  | nil => cases h
  | cons m tasks ih =>
    rcases stateBind_eq_error.mp h with h | ⟨⟨⟩, p₁, htask, h⟩
    · rcases stateBind_eq_error.mp h with h | ⟨⟨⟩, p₁, hdir, h⟩
      · exact .inl (isIo_of_ensureDir h)
      · rcases stateBind_eq_error.mp h with h | ⟨⟨⟩, p₂, htransfers, h⟩
        · obtain ⟨first, tr, rest, fault, hsplit, hdone, hfault⟩ := transferAll_eq_error h
          refine .inr ⟨[], m, tasks, first, tr, rest, rfl, hsplit, ?_, fault, hfault⟩
          exact stateBind_eq_ok.mpr ⟨(), p, rfl, stateBind_eq_ok.mpr ⟨(), p₁, hdir, hdone⟩⟩
        · exact .inl (isIo_of_writeMarks h)
    · refine (ih h).imp_right ?_
      rintro ⟨before, m', behind, first, tr, rest, rfl, hsplit, hreached, hfailed⟩
      refine ⟨m :: before, m', behind, first, tr, rest, rfl, hsplit, ?_, hfailed⟩
      obtain ⟨⟨⟩, p₂, hbefore, hrest⟩ := stateBind_eq_ok.mp hreached
      exact stateBind_eq_ok.mpr ⟨(), p₂, stateBind_eq_ok.mpr ⟨(), p₁, htask, hbefore⟩, hrest⟩

-- ---------------------------------------------------------------------------
-- The whole conversion
-- ---------------------------------------------------------------------------

variable {c : Candidate} {level : Nat}

/-- The tree differs by these deeds, and by directories on the way to these. -/
structure Differs (start : Tree) (o : Options) (deeds : List Deed) (dirs : List String) (t : Tree) : Prop where
  run : Run o start deeds t
  files : ∀ key, t.fileAt key = start.fileAt key ∨ ∃ deed ∈ deeds, deed.Touches start o key
  kept : start.Keeps t
  made : Lays start dirs start t

theorem Brings.differs (h : Brings o w ds dirs) (hway : Underway p.tree o (ds ++ more) p.tree) (hok : w p = .ok () p') :
    Differs p.tree o ds dirs p'.tree ∧ p'.log = p.log ++ transfersOf ds ∧ (p.Counted → p'.Counted) := by
  obtain ⟨hrun, hlays, htold⟩ := h p.tree more p p' hway hok
  refine ⟨⟨hrun, fun key => ?_, hrun.keeps hway.first, hlays⟩, htold⟩
  by_cases hkey : ∃ deed ∈ ds, deed.Touches p.tree o key
  · exact .inr hkey
  · exact .inl (hrun.untouched hway.first fun deed hdeed htouch => hkey ⟨deed, hdeed, htouch⟩)

def deedsUpTo (o : Options) (before : List TaskMatch) (first : List Transfer) : List Deed :=
  script o before ++ first.map .transfer

def targetDirs (o : Options) (tasks : List TaskMatch) : List String := tasks.map fun m => o.targetDir m.task

theorem brings_upTo (before : List TaskMatch) (m : TaskMatch) (first : List Transfer) :
    Brings o (upTo o before m first) (deedsUpTo o before first) (targetDirs o (before ++ [m])) := by
  rw [targetDirs, List.map_append]
  exact (brings_tasks before).bind ((brings_ensureDir (o.targetDir m.task)).bind (brings_transferAll first))

/-- A conversion comes as far as a transfer that fails. -/
structure Interrupted (t : Tree) (o : Options) (c : Candidate) (t' : Tree) (before : List TaskMatch) (m : TaskMatch)
    (behind : List TaskMatch) (first : List Transfer) (tr : Transfer) (rest : List Transfer) : Prop where
  tasks : c.tasks = before ++ m :: behind
  transfers : o.transfers m = first ++ tr :: rest
  differs : Differs t o (deedsUpTo o before first) (targetDirs o (before ++ [m])) t'
  fails : ∃ fault, transferFile o.mode tr.source tr.target t' = .error fault t' ∧ (apply t o c).result =
    .error (.transfer tr.source tr.target (transfersOf (deedsUpTo o before first)).length fault)
  told : (apply t o c).transfers = transfersOf (deedsUpTo o before first)

/-- How a conversion fails: refused and with nothing touched, for a reason of the system, or at a transfer. -/
inductive Fails (t : Tree) (o : Options) (c : Candidate) (failure : Failure) : Prop
  | refused (h : check t o c = .error failure) (htree : (apply t o c).tree = t)
  | io (h : IsIo failure)
  | interrupted (before m behind first tr rest)
      (h : Interrupted t o c (apply t o c).tree before m behind first tr rest)

theorem fails_of_apply (hway : Underway t o (script o c.tasks) t) (h : (apply t o c).result = .error failure) :
    Fails t o c failure := by
  unfold apply at h
  cases hcheck : check t o c with
  | error refusal =>
    rw [hcheck] at h
    cases h
    exact .refused hcheck (by rw [apply, hcheck])
  | ok u =>
    rw [hcheck] at h
    cases hwork : Work.tasks o c.tasks (.start t) with
    | ok u p => simp only [hwork] at h; cases h
    | error failure' p =>
      have happly : apply t o c = ⟨p.log, .error failure', p.tree⟩ := by simp only [apply, hcheck, hwork]
      simp only [hwork] at h
      cases h
      rcases tasks_eq_error hwork with
        hio | ⟨before, m, behind, first, tr, rest, htasks, hsplit, hreached, fault, hfault, rfl⟩
      · exact .io hio
      · have hscript : script o c.tasks = deedsUpTo o before first ++
            (.transfer tr :: rest.map .transfer ++ .marks m :: script o behind) := by
          simp [htasks, script, taskScript, hsplit, deedsUpTo]
        rw [hscript] at hway
        obtain ⟨hdiffers, hlog, hcounted⟩ := (brings_upTo before m first).differs hway hreached
        have hcount : p.transferred = (transfersOf (deedsUpTo o before first)).length := by
          rw [(hcounted (Progress.counted_start t)).transferred, hlog]
          rfl
        refine .interrupted before m behind first tr rest ⟨htasks, hsplit, ?_, ⟨fault, ?_, ?_⟩, ?_⟩
        · rw [happly]
          exact hdiffers
        · rw [happly]
          exact hfault
        · rw [happly, hcount]
        · rw [happly, hlog]
          rfl

/-- A conversion has gone through its script, and cleaned up if it had to. -/
structure Completed (t : Tree) (o : Options) (c : Candidate) (t' : Tree) : Prop where
  run : ∃ after, Run o t (script o c.tasks) after ∧
    t' = if o.mode = .move ∧ o.clean then (removeEmptyDirs o.taskDir after).2 else after
  transferred : ∀ m ∈ c.tasks, ∀ isInput index record,
    (if isInput then m.inputs else m.outputs)[index]? = some record →
      .transfer (o.transfer m.task isInput index record) ∈ script o c.tasks ∧
        ∃ content, t'.fileAt (numberedKey t o m.task index isInput) = some content
  marked : ∀ m ∈ c.tasks, .marks m ∈ script o c.tasks ∧
    (Unmoved t o (script o c.tasks) (t.keyOf (o.marksPath m)) →
      Overwritten t o (script o c.tasks) (t.keyOf (o.marksPath m)) t')

theorem Found.completed {report : Report} (h : Found t o level c)
    (hins : o.infilesOnly = true → ∀ m ∈ c.tasks, m.outputs = []) (hok : (apply t o c).result = .ok report) :
    Completed t o c (apply t o c).tree := by
  obtain ⟨-, after, hrun, htree⟩ := run_of_ok hok
  have hfiles : (apply t o c).tree.fileAt = after.fileAt := by
    rw [htree]
    split
    · exact removeEmptyDirs_fileAt (hrun.underway_done h.underway).wellFormed _
    · rfl
  refine ⟨⟨after, hrun, htree⟩, fun m hm isInput index record hrecord => ?_, fun m hm => ?_⟩
  · have hboth : isInput = false → o.infilesOnly = false := by
      rintro rfl
      refine Bool.eq_false_iff.mpr fun hinfiles => ?_
      simp [hins hinfiles m hm] at hrecord
    have htr := h.transfer_mem hm hrecord hboth
    obtain ⟨content, hfile⟩ := hrun.target_file h.underway htr
    rw [keyOf_numbered, ← hfiles] at hfile
    exact ⟨mem_transfersOf.mp htr, content, hfile⟩
  · have hmarks := Ready.marks_mem_script o hm
    refine ⟨hmarks, fun hunmoved => ?_⟩
    obtain ⟨m', hm', hkey, hwritable, hfile⟩ := (hrun.marked h.underway hmarks).2 hunmoved
    exact ⟨m', hm', hkey, hwritable, hfiles ▸ hfile⟩

end Conversion

end ContestTests
