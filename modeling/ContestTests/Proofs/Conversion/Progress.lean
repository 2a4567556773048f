import ContestTests.Proofs.Conversion.Cleanup
import ContestTests.Proofs.Conversion.Transfer

/-!
# How far a conversion comes

A conversion performs the deeds of its script in their order. Where it fails, a first part of the script
is done, and a transfer that failed is the deed whose turn it was. Nothing is said about the failures
themselves.
-/

namespace ContestTests

open ContestTests.Path

variable {t t' : Tree} {down key : Key}

theorem Tree.OnlyDirs.fileAt (h : t.OnlyDirs t') : t'.fileAt = t.fileAt := by
  funext key
  unfold Tree.fileAt
  rcases h key with he | ⟨hnone, hdir⟩
  · rw [he]
  · rw [hnone, hdir]
    rfl

theorem Tree.AddsDirs.fileAt (h : t.AddsDirs down t') : t'.fileAt = t.fileAt := h.onlyDirs.fileAt

namespace Conversion

variable {o : Options} {tasks : List TaskMatch} {m : TaskMatch} {tr : Transfer} {deeds ds ds' : List Deed}
  {p p' : Progress} {w w' : Work Unit} {source target : String} {mode : TransferMode} {failure : Failure}

-- ---------------------------------------------------------------------------
-- Counters and log
-- ---------------------------------------------------------------------------

namespace Progress

@[simp] theorem count_tree (p : Progress) (tr : Transfer) : (p.count tr).tree = p.tree := by
  rw [count]
  split <;> rfl

@[simp] theorem count_log (p : Progress) (tr : Transfer) : (p.count tr).log = p.log := by
  rw [count]
  split <;> rfl

@[simp] theorem count_tasks (p : Progress) (tr : Transfer) : (p.count tr).tasks = p.tasks := by
  rw [count]
  split <;> rfl

@[simp] theorem count_marksFiles (p : Progress) (tr : Transfer) : (p.count tr).marksFiles = p.marksFiles := by
  rw [count]
  split <;> rfl

structure Counted (p : Progress) : Prop where
  inputs : p.inputs = p.log.countP (·.isInput)
  outputs : p.outputs = p.log.countP (!·.isInput)
  tasks : p.tasks = p.marksFiles.length

theorem counted_start (t : Tree) : (start t).Counted := ⟨rfl, rfl, rfl⟩

theorem Counted.transferred (h : p.Counted) : p.transferred = p.log.length := by
  rw [Progress.transferred, h.inputs, h.outputs]
  simpa using (@List.length_eq_countP_add_countP _ Transfer.isInput p.log).symm

theorem Counted.withTree (h : p.Counted) (t : Tree) : { p with tree := t }.Counted := ⟨h.inputs, h.outputs, h.tasks⟩

theorem Counted.told (h : p.Counted) (t : Tree) (tr : Transfer) :
    ({ p with tree := t, log := p.log ++ [tr] }.count tr).Counted := by
  refine ⟨?_, ?_, ?_⟩
  · cases hside : tr.isInput <;> simp [count, hside, h.inputs]
  · cases hside : tr.isInput <;> simp [count, hside, h.outputs]
  · simpa using h.tasks

theorem Counted.marked (h : p.Counted) (t : Tree) (path : String) :
    { p with tree := t, tasks := p.tasks + 1, marksFiles := p.marksFiles ++ [path] }.Counted :=
  ⟨h.inputs, h.outputs, by simp [h.tasks]⟩

end Progress

theorem Work.transfer_eq_ok (h : Work.transfer mode tr p = .ok () p') : ∃ t',
    transferFile mode tr.source tr.target p.tree = .ok () t' ∧
      p' = { p with tree := t', log := p.log ++ [tr] }.count tr := by
  rw [Work.transfer] at h
  split at h
  · cases h
    exact ⟨_, ‹_›, rfl⟩
  · cases h

theorem Work.transfer_eq_error (h : Work.transfer mode tr p = .error failure p') : p' = p ∧ ∃ fault,
    transferFile mode tr.source tr.target p.tree = .error fault p.tree ∧
      failure = .transfer tr.source tr.target p.transferred fault := by
  rw [Work.transfer] at h
  split at h
  · cases h
  · rename_i fault t' hfails
    cases h
    obtain rfl := transferFile_unchanged hfails
    exact ⟨rfl, fault, hfails, rfl⟩

-- ---------------------------------------------------------------------------
-- Following the script
-- ---------------------------------------------------------------------------

/-- The deeds are what has been done to the files; of directories there are the old ones and those of the tasks. -/
structure Along (t : Tree) (o : Options) (tasks : List TaskMatch) (deeds : List Deed) (p : Progress) : Prop where
  wellFormed : p.tree.WellFormed
  current : p.tree.current = t.current
  performed : Performed t o deeds t.fileAt p.tree.fileAt
  log : p.log = transfersOf deeds
  marksFiles : p.marksFiles = (markedBy deeds).map o.marksPath
  counted : p.Counted
  directories : ∀ key, p.tree.find? key = some .directory →
    t.find? key = some .directory ∨ ∃ m ∈ tasks, key <+: t.keyOf (o.targetDir m.task)

def TellsNext (failure : Failure) (count : Nat) (rest : List Deed) : Prop :=
  ∀ source target n fault, failure = .transfer source target n fault →
    n = count ∧ ∃ tr more, rest = .transfer tr :: more ∧ tr.source = source ∧ tr.target = target

/-- Work that performs deeds when their turn comes, all of them or a first part. No directory goes. -/
def Follows (t : Tree) (o : Options) (tasks : List TaskMatch) (w : Work Unit) (ds : List Deed) : Prop :=
  ∀ deeds p, deeds ++ ds <+: script o tasks → Along t o tasks deeds p →
    (∀ p', w p = .ok () p' → Along t o tasks (deeds ++ ds) p' ∧ p.tree.Keeps p'.tree) ∧
      ∀ failure p', w p = .error failure p' → ∃ first rest, ds = first ++ rest ∧
        Along t o tasks (deeds ++ first) p' ∧ TellsNext failure p'.log.length rest

theorem Follows.bind (h : Follows t o tasks w ds) (h' : Follows t o tasks w' ds') :
    Follows t o tasks (w >>= fun _ => w') (ds ++ ds') := by
  intro deeds p hscript halong
  rw [← List.append_assoc] at hscript
  obtain ⟨hok, hfail⟩ := h deeds p ((List.prefix_append _ _).trans hscript) halong
  refine ⟨fun p' hp' => ?_, fun failure p' hp' => ?_⟩
  · obtain ⟨⟨⟩, p₁, hw, hw'⟩ := stateBind_eq_ok.mp hp'
    obtain ⟨halong₁, hkeeps₁⟩ := hok p₁ hw
    obtain ⟨halong', hkeeps'⟩ := (h' (deeds ++ ds) p₁ hscript halong₁).1 p' hw'
    rw [← List.append_assoc]
    exact ⟨halong', hkeeps₁.trans hkeeps'⟩
  · rcases stateBind_eq_error.mp hp' with hw | ⟨⟨⟩, p₁, hw, hw'⟩
    · obtain ⟨first, rest, rfl, hfirst, hnext⟩ := hfail failure p' hw
      refine ⟨first, rest ++ ds', by rw [List.append_assoc], hfirst, fun source target n fault he => ?_⟩
      obtain ⟨hn, tr, more, rfl, htr⟩ := hnext source target n fault he
      exact ⟨hn, tr, more ++ ds', rfl, htr⟩
    · obtain ⟨halong₁, -⟩ := hok p₁ hw
      obtain ⟨first, rest, rfl, hfirst, hnext⟩ := (h' (deeds ++ ds) p₁ hscript halong₁).2 failure p' hw'
      refine ⟨ds ++ first, rest, by rw [List.append_assoc], ?_, hnext⟩
      rw [← List.append_assoc]
      exact hfirst

theorem Follows.pure : Follows t o tasks (pure ()) [] := by
  intro deeds p _ halong
  refine ⟨fun p' hp' => ?_, fun failure p' hp' => (by cases hp')⟩
  cases hp'
  rw [List.append_nil]
  exact ⟨halong, .refl _⟩

-- ---------------------------------------------------------------------------
-- The works
-- ---------------------------------------------------------------------------

variable {t₁ : Tree}

theorem Along.addsDirs (h : Along t o tasks deeds p) (hm : m ∈ tasks)
    (hadds : p.tree.AddsDirs (t.keyOf (o.targetDir m.task)) t₁) :
    Along t o tasks deeds { p with tree := t₁ } := by
  refine ⟨hadds.wellFormed, hadds.current.trans h.current, ?_, h.log, h.marksFiles, h.counted.withTree t₁,
    fun key hkey => ?_⟩
  · show Performed t o deeds t.fileAt t₁.fileAt
    rw [hadds.fileAt]
    exact h.performed
  · rcases hadds.find? key with he | ⟨-, -, hdown⟩
    · exact h.directories key (he ▸ hkey)
    · exact .inr ⟨m, hm, hdown⟩

theorem follows_ensureDir (hm : m ∈ tasks) (hup : .up ∉ Path.components (o.targetDir m.task)) :
    Follows t o tasks (Work.ensureDir (o.targetDir m.task)) [] := by
  intro deeds p _ halong
  have hadds := Tree.createDirs_addsOnly hup (fun t' ht' => (Tree.keyOf_congr ht' _ ▸ List.prefix_rfl :
    t'.keyOf (o.targetDir m.task) <+: t.keyOf (o.targetDir m.task))) p.tree halong.wellFormed halong.current
  rw [Work.ensureDir]
  split
  · refine ⟨fun p' hp' => ?_, fun failure p' hp' => (by cases hp')⟩
    cases hp'
    rw [List.append_nil]
    exact ⟨halong, .refl _⟩
  · rw [Work.ofAction]
    split
    · rename_i t₁ hresult
      rw [hresult] at hadds
      refine ⟨fun p' hp' => ?_, fun failure p' hp' => (by cases hp')⟩
      cases hp'
      rw [List.append_nil]
      exact ⟨halong.addsDirs hm hadds, hadds.keeps⟩
    · rename_i fault t₁ hresult
      rw [hresult] at hadds
      refine ⟨fun p' hp' => (by cases hp'), fun failure p' hp' => ?_⟩
      cases hp'
      refine ⟨[], [], rfl, ?_, fun source target n fault he => (by cases he)⟩
      rw [List.append_nil]
      exact halong.addsDirs hm hadds

/-- No source is a directory while the conversion runs. -/
def NoDirectory (t : Tree) (o : Options) (tasks : List TaskMatch) (tr : Transfer) : Prop :=
  t.find? (t.keyOf tr.source) ≠ some .directory ∧
    ∀ m ∈ tasks, ¬ t.keyOf tr.source <+: t.keyOf (o.targetDir m.task)

theorem follows_transfer (hsource : NoDirectory t o tasks tr) :
    Follows t o tasks (Work.transfer o.mode tr) [.transfer tr] := by
  intro deeds p _ halong
  have hkey (path : String) : p.tree.keyOf path = t.keyOf path := Tree.keyOf_congr halong.current path
  refine ⟨fun p' hp' => ?_, fun failure p' hp' => ?_⟩
  · obtain ⟨t₁, hresult, rfl⟩ := Work.transfer_eq_ok hp'
    have hdir : p.tree.find? (p.tree.keyOf tr.source) ≠ some .directory := by
      rw [hkey]
      intro hdir
      rcases halong.directories _ hdir with hdir | ⟨m, hm, hdown⟩
      · exact hsource.1 hdir
      · exact hsource.2 m hm hdown
    obtain ⟨content, hfind, hnone, hbecomes⟩ := transferFile_becomes halong.wellFormed hdir hresult
    have hdirectories := transferFile_directories halong.wellFormed hdir hresult
    rw [hkey] at hfind hnone
    have hperformed : Performed t o [.transfer tr] p.tree.fileAt t₁.fileAt := by
      refine ⟨content, Tree.fileAt_eq_some_iff.mpr hfind, ?_, ?_⟩
      · rw [Tree.fileAt, hnone]
        rfl
      · funext k
        rw [Tree.fileAt, hbecomes.find?, hkey, hkey, transferred]
        split
        · rfl
        · split
          · rfl
          · rfl
    refine ⟨?_, fun key hdir => ?_⟩
    · refine ⟨?_, ?_, ?_, ?_, ?_, halong.counted.told t₁ tr, fun key hdir => ?_⟩
      · simpa using hbecomes.wellFormed
      · simpa using hbecomes.current.trans halong.current
      · simpa using halong.performed.append hperformed
      · rw [Progress.count_log, transfersOf_append, ← halong.log]
        rfl
      · rw [Progress.count_marksFiles, markedBy_append]
        exact halong.marksFiles.trans (congrArg _ (List.append_nil _).symm)
      · rw [Progress.count_tree] at hdir
        exact halong.directories key ((hdirectories key).mp hdir)
    · rw [Progress.count_tree]
      exact (hdirectories key).mpr hdir
  · obtain ⟨rfl, fault, hfails, rfl⟩ := Work.transfer_eq_error hp'
    refine ⟨[], [.transfer tr], rfl, by rwa [List.append_nil], fun source target n fault he => ?_⟩
    cases he
    exact ⟨halong.counted.transferred, tr, [], rfl, rfl, rfl⟩

theorem follows_transferAll {trs : List Transfer} (hsources : ∀ tr ∈ trs, NoDirectory t o tasks tr) :
    Follows t o tasks (Work.transferAll o.mode trs) (trs.map .transfer) := by
  induction trs with
  | nil => exact .pure
  | cons tr trs ih =>
    obtain ⟨hsource, hrest⟩ := List.forall_mem_cons.mp hsources
    exact (follows_transfer hsource).bind (ih hrest)

theorem writeMarks_ok (h : p.tree.write (o.marksPath m) (marksContent m) = .ok t₁) :
    Work.writeMarks o m p =
      .ok () { p with tree := t₁, tasks := p.tasks + 1, marksFiles := p.marksFiles ++ [o.marksPath m] } := by
  rw [marksContent] at h
  simp only [Work.writeMarks, Bind.bind, EStateM.bind, Work.ofAction, Action.write, Action.ofChange, h]
  rfl

theorem writeMarks_error (h : p.tree.write (o.marksPath m) (marksContent m) = .error fault) :
    Work.writeMarks o m p = .error (.io fault) p := by
  rw [marksContent] at h
  simp only [Work.writeMarks, Bind.bind, EStateM.bind, Work.ofAction, Action.write, Action.ofChange, h]

theorem follows_writeMarks (ht : t.WellFormed) (harranged : Arranged o tasks)
    (hup : .up ∉ Path.components (o.marksPath m)) (hfree : t.exists? (o.marksPath m) = false) :
    Follows t o tasks (Work.writeMarks o m) [.marks m] := by
  intro deeds p hscript halong
  have hkey : p.tree.keyOf (o.marksPath m) = t.keyOf (o.marksPath m) := Tree.keyOf_congr halong.current _
  cases hresult : p.tree.write (o.marksPath m) (marksContent m) with
  | ok t₁ =>
    rw [writeMarks_ok hresult]
    obtain ⟨hlocate, hdir, hbecomes⟩ := Tree.write_becomes halong.wellFormed hresult
    have hdirectories := Tree.write_directories halong.wellFormed hresult
    rw [hkey] at hlocate hdir hbecomes
    refine ⟨fun p' hp' => ?_, fun failure p' hp' => (by cases hp')⟩
    cases hp'
    -- A file there would have been found by the check, and no other deed puts one there.
    have hinitial : t.fileAt (t.keyOf (o.marksPath m)) = none := by
      cases hfile : t.fileAt (t.keyOf (o.marksPath m)) with
      | none => rfl
      | some content =>
        have hstands := Tree.fileAt_eq_some_iff.mp hfile
        have hthere := ht.locate_of_stands halong.current hup hlocate hdir hstands
        rw [Tree.find?_of_vacant (Bool.eq_false_iff.mp hfree) hthere] at hstands
        cases hstands
    have hfresh := target_fresh t harranged hscript
    rw [Deed.target_marks] at hfresh
    have hnone := halong.performed.eq_none hinitial hfresh
    refine ⟨⟨hbecomes.wellFormed, hbecomes.current.trans halong.current, halong.performed.append ⟨hnone, ?_⟩, ?_,
      ?_, halong.counted.marked t₁ _, fun key hdir => ?_⟩, fun key hkeep => ?_⟩
    · funext k
      rw [Tree.fileAt, hbecomes.find?, filled]
      split
      · rfl
      · rfl
    · rw [transfersOf_append]
      exact halong.log.trans (List.append_nil _).symm
    · rw [markedBy_append, List.map_append, ← halong.marksFiles]
      rfl
    · exact halong.directories key ((hdirectories key).mp hdir)
    · exact (hdirectories key).mpr hkeep
  | error fault =>
    rw [writeMarks_error hresult]
    refine ⟨fun p' hp' => (by cases hp'), fun failure p' hp' => ?_⟩
    cases hp'
    refine ⟨[], [.marks m], rfl, ?_, fun source target n fault he => (by cases he)⟩
    rwa [List.append_nil]

theorem up_not_mem_targetDir (harranged : Arranged o tasks) (hup : .up ∉ Path.components o.workDir) (hm : m ∈ tasks) :
    .up ∉ Path.components (o.targetDir m.task) := by
  obtain ⟨way, hway, htask⟩ := harranged.ways m hm
  rw [Options.targetDir, htask]
  exact Tree.up_not_mem_directory hway hup

theorem follows_task (ht : t.WellFormed) (harranged : Arranged o tasks) (hup : .up ∉ Path.components o.workDir)
    (hm : m ∈ tasks) (hsources : ∀ tr ∈ o.transfers m, NoDirectory t o tasks tr)
    (hfree : t.exists? (o.marksPath m) = false) : Follows t o tasks (Work.task o m) (taskScript o m) := by
  have hupDir := up_not_mem_targetDir harranged hup hm
  have hupMarks : .up ∉ Path.components (o.marksPath m) := Tree.up_not_mem_join_name harranged.marksName hupDir
  exact (follows_ensureDir hm hupDir).bind
    ((follows_transferAll hsources).bind (follows_writeMarks ht harranged hupMarks hfree))

theorem follows_tasks (ht : t.WellFormed) (harranged : Arranged o tasks) (hup : .up ∉ Path.components o.workDir)
    {more : List TaskMatch} (hmore : ∀ m ∈ more, m ∈ tasks ∧ (∀ tr ∈ o.transfers m, NoDirectory t o tasks tr) ∧
      t.exists? (o.marksPath m) = false) : Follows t o tasks (Work.tasks o more) (script o more) := by
  induction more with
  | nil => exact .pure
  | cons m more ih =>
    obtain ⟨⟨hm, hsources, hfree⟩, hmore⟩ := List.forall_mem_cons.mp hmore
    exact (follows_task ht harranged hup hm hsources hfree).bind (ih hmore)

-- ---------------------------------------------------------------------------
-- The whole conversion
-- ---------------------------------------------------------------------------

variable {c : Candidate}

theorem check_eq_ok : check t o c = .ok () ↔ (t.exists? o.workDir → t.isDirectory o.workDir) ∧
    ∀ m ∈ c.tasks, t.exists? (o.marksPath m) = false := by
  unfold check
  split
  · rename_i h
    obtain ⟨hexists, hdir⟩ := Bool.and_eq_true_iff.mp h
    refine ⟨fun he => (by cases he), fun ⟨hwork, _⟩ => ?_⟩
    rw [hwork hexists] at hdir
    cases hdir
  · rename_i h
    have hwork : t.exists? o.workDir → t.isDirectory o.workDir := by simpa using h
    split
    · rename_i m hfind
      refine ⟨fun he => (by cases he), fun ⟨_, hmarks⟩ => ?_⟩
      have hexists := List.find?_some hfind
      rw [hmarks m (List.mem_of_find?_eq_some hfind)] at hexists
      cases hexists
    · rename_i hnone
      refine ⟨fun _ => ⟨hwork, fun m hm => ?_⟩, fun _ => rfl⟩
      simpa using List.find?_eq_none.mp hnone m hm

/-- The report tells how much of the plan was done, which is all. -/
structure Report.Tells (o : Options) (c : Candidate) (report : Report) : Prop where
  inputs : report.inputs = (plan o c).countP (·.isInput)
  outputs : report.outputs = (plan o c).countP (!·.isInput)
  tasks : report.tasks = c.tasks.length
  marksFiles : report.marksFiles = c.tasks.map o.marksPath

theorem Along.tells (h : Along t o c.tasks (script o c.tasks) p) (cleanup : Cleanup) :
    Report.Tells o c ⟨p.tasks, p.inputs, p.outputs, p.marksFiles, cleanup⟩ := by
  have hlog : p.log = plan o c := by rw [h.log, transfersOf_script, plan_eq]
  have hmarks : p.marksFiles = c.tasks.map o.marksPath := by rw [h.marksFiles, markedBy_script]
  refine ⟨?_, ?_, ?_, hmarks⟩
  · exact hlog ▸ h.counted.inputs
  · exact hlog ▸ h.counted.outputs
  · exact h.counted.tasks.trans (by rw [hmarks, List.length_map])

theorem apply_along (ht : t.WellFormed) (horder : Orderly o c.tasks) (hup : .up ∉ Path.components o.workDir)
    (hsources : ∀ tr ∈ plan o c, NoDirectory t o c.tasks tr) :
    ∃ deeds rest, script o c.tasks = deeds ++ rest ∧ (apply t o c).transfers = transfersOf deeds ∧
      Performed t o deeds t.fileAt (apply t o c).tree.fileAt ∧
      (∀ report, (apply t o c).result = .ok report → rest = [] ∧ report.Tells o c) ∧
      ∀ failure, (apply t o c).result = .error failure → TellsNext failure (apply t o c).transfers.length rest := by
  unfold apply
  cases hcheck : check t o c with
  | error failure =>
    refine ⟨[], _, rfl, rfl, rfl, fun report he => (by cases he), fun f he => ?_⟩
    cases he
    rintro source target n fault rfl
    unfold check at hcheck
    split at hcheck
    · cases hcheck
    · split at hcheck <;> cases hcheck
  | ok u =>
    obtain ⟨-, hmarks⟩ := check_eq_ok.mp hcheck
    have hfollows := follows_tasks ht horder.arranged hup fun m hm =>
      ⟨hm, fun tr htr => hsources tr (mem_plan.mpr ⟨m, hm, htr⟩), hmarks m hm⟩
    obtain ⟨hok, hfail⟩ := hfollows [] (.start t) List.prefix_rfl
      ⟨ht, rfl, rfl, rfl, rfl, Progress.counted_start t, fun key => .inl⟩
    cases hwork : Work.tasks o c.tasks (.start t) with
    | error failure p =>
      obtain ⟨first, rest, hscript, halong, hnext⟩ := hfail failure p hwork
      refine ⟨first, rest, hscript, halong.log, halong.performed, fun report he => (by cases he), fun f he => ?_⟩
      cases he
      exact hnext
    | ok u p =>
      obtain ⟨halong, -⟩ := hok p hwork
      refine ⟨script o c.tasks, [], (List.append_nil _).symm, halong.log, ?files, fun report he => ?told,
        fun f he => (by cases he)⟩
      case told =>
        cases he
        exact ⟨rfl, halong.tells _⟩
      case files =>
        dsimp only
        split
        · rw [removeEmptyDirs_fileAt halong.wellFormed]
          exact halong.performed
        · exact halong.performed

/-- However a conversion ends, its transfers are the first ones of the plan, the files are as the deeds before that
point leave them, and no content is gone. If it ends well, all is done and counted. If a transfer fails, it is the
next one of the plan, and the failure counts those before it. -/
theorem apply_performs_first_deeds (ht : t.WellFormed) (horder : Orderly o c.tasks)
    (hup : .up ∉ Path.components o.workDir) (hsources : ∀ tr ∈ plan o c, NoDirectory t o c.tasks tr) :
    (∃ deeds rest, script o c.tasks = deeds ++ rest ∧ (apply t o c).transfers = transfersOf deeds ∧
      Performed t o deeds t.fileAt (apply t o c).tree.fileAt ∧
      (∀ report, (apply t o c).result = .ok report → rest = []) ∧
      ∀ source target n fault, (apply t o c).result = .error (.transfer source target n fault) →
        ∃ tr more, rest = .transfer tr :: more ∧ tr.source = source ∧ tr.target = target) ∧
      (apply t o c).transfers <+: plan o c ∧
      (∀ report, (apply t o c).result = .ok report → (apply t o c).transfers = plan o c ∧ report.Tells o c) ∧
      (∀ source target n fault, (apply t o c).result = .error (.transfer source target n fault) →
        n = (apply t o c).transfers.length ∧
          ∃ tr, (plan o c)[n]? = some tr ∧ tr.source = source ∧ tr.target = target) ∧
      ∀ key content, t.fileAt key = some content → ∃ key', (apply t o c).tree.fileAt key' = some content := by
  obtain ⟨deeds, rest, hscript, hdone, hperformed, hok, hfail⟩ := apply_along ht horder hup hsources
  have hplan : plan o c = (apply t o c).transfers ++ transfersOf rest := by
    rw [plan_eq, ← transfersOf_script, hscript, transfersOf_append, hdone]
  refine ⟨⟨deeds, rest, hscript, hdone, hperformed, fun report he => (hok report he).1, fun source target n fault he => ?_⟩,
    ?_, fun report he => ⟨?_, (hok report he).2⟩, fun source target n fault he => ?_,
    fun key content => hperformed.keeps_content⟩
  · exact (hfail _ he source target n fault rfl).2
  · rw [hplan]
    exact List.prefix_append _ _
  · rw [hplan, (hok report he).1]
    exact (List.append_nil _).symm
  · obtain ⟨hn, tr, more, hrest, htr⟩ := hfail _ he source target n fault rfl
    refine ⟨hn, tr, ?_, htr⟩
    rw [hplan, hrest, hn, List.getElem?_append_right (Nat.le_refl _), Nat.sub_self]
    rfl

def splitFile : Tree :=
  { (Tree.empty.put ["a"] .directory).put ["a", "x"] (.file "1".toUTF8) with refusesRename := fun _ _ => true }

def splitOptions : Options := ⟨"a", "w", .move, false, true, "marks.txt"⟩

def splitTests : Candidate := ⟨"two", [⟨"", [⟨"x", "", 1, 1⟩, ⟨"y", "", 2, 1⟩], []⟩]⟩

/-- Two files are to be moved across file systems and the second is missing: the first stays moved. -/
theorem apply_performs_first_deeds_missing_file :
    (splitFile.WellFormed ∧ Orderly splitOptions splitTests.tasks ∧ .up ∉ Path.components splitOptions.workDir ∧
      ∀ tr ∈ plan splitOptions splitTests, NoDirectory splitFile splitOptions splitTests.tasks tr) ∧
      plan splitOptions splitTests = [⟨true, "a/x", "w/1.in"⟩, ⟨true, "a/y", "w/2.in"⟩] ∧
      (apply splitFile splitOptions splitTests).result = .error (.transfer "a/y" "w/2.in" 1 .notFound) ∧
      (apply splitFile splitOptions splitTests).transfers = [⟨true, "a/x", "w/1.in"⟩] ∧
      (apply splitFile splitOptions splitTests).tree.fileAt ["a", "x"] = none ∧
      ∃ key, (apply splitFile splitOptions splitTests).tree.fileAt key = some "1".toUTF8 := by
  have ht : splitFile.WellFormed := by decide
  have horder : Orderly splitOptions splitTests.tasks := by
    refine ⟨fun m hm => ⟨[], by simp [IsWay], ?_⟩, by decide, by decide, not_isNumbered rfl rfl⟩
    rw [List.mem_singleton.mp hm]
    rfl
  have hplan : plan splitOptions splitTests = [⟨true, "a/x", "w/1.in"⟩, ⟨true, "a/y", "w/2.in"⟩] := by decide
  have hsources : ∀ tr ∈ plan splitOptions splitTests, NoDirectory splitFile splitOptions splitTests.tasks tr := by
    intro tr htr
    have hcases : tr = ⟨true, "a/x", "w/1.in"⟩ ∨ tr = ⟨true, "a/y", "w/2.in"⟩ := List.mem_pair.mp (hplan ▸ htr)
    refine ⟨fun h => ?_, fun m hm => ?_⟩
    · rcases hcases with rfl | rfl <;> cases h
    · rw [List.mem_singleton.mp hm]
      rcases hcases with rfl | rfl <;> decide
  obtain ⟨-, hfirst, -, hfails, hkept⟩ := apply_performs_first_deeds ht horder (by decide) hsources
  have hresult : (apply splitFile splitOptions splitTests).result = .error (.transfer "a/y" "w/2.in" 1 .notFound) := by
    decide +kernel
  obtain ⟨hcount, -⟩ := hfails _ _ _ _ hresult
  refine ⟨⟨ht, horder, by decide, hsources⟩, hplan, hresult, ?_, ?_, hkept ["a", "x"] _ rfl⟩
  · rw [List.prefix_iff_eq_take.mp hfirst, ← hcount, hplan]
    rfl
  · decide +kernel

end Conversion

end ContestTests
