import ContestTests.Proofs.Conversion.Completion
import ContestTests.Proofs.Conversion.Limits
import ContestTests.Proofs.Detection.Acceptance
import ContestTests.Proofs.Task.Scanning

/-!
# Accepted means convertible

What scanning lists and a definition explains can be converted: the sources are there and differ, and
no target is taken. Only the operating system has a word in it: paths must keep its limits, and it makes
no directory under a path that ends in a dot.
-/

namespace ContestTests.Conversion

open ContestTests.Path

variable {t : Tree} {o : Options} {c : Candidate} {m : TaskMatch} {task : String} {index level : Nat} {base way : Key}
  {inputs outputs : List Record} {record : Record} {scanned : List Task} {context : Template.Context}
  {definition : Definition}

-- ---------------------------------------------------------------------------
-- Sources
-- ---------------------------------------------------------------------------

def sourceKey (t : Tree) (o : Options) (task : String) (record : Record) : Key :=
  t.keyOf (Path.join (Task.directory o.taskDir task) record.path)

theorem keyOf_source (t : Tree) (o : Options) (task : String) (isInput : Bool) (index : Nat) (record : Record) :
    t.keyOf (o.transfer task isInput index record).source = sourceKey t o task record := rfl

theorem mem_sources {key : Key} (h : key ∈ (o.transfersFrom task index inputs outputs).map fun tr => t.keyOf tr.source) :
    key ∈ (inputs ++ outputs).map (sourceKey t o task) := by
  obtain ⟨tr, htr, rfl⟩ := List.mem_map.mp h
  rcases mem_transfersFrom.mp htr with ⟨j, record, hrecord, rfl⟩ | ⟨-, j, record, -, hrecord, rfl⟩
  · exact List.mem_map_of_mem (List.mem_append_left _ (List.mem_of_getElem? hrecord))
  · exact List.mem_map_of_mem (List.mem_append_right _ (List.mem_of_getElem? hrecord))

theorem transfersFrom_sources_nodup (h : ((inputs ++ outputs).map (sourceKey t o task)).Nodup) :
    ((o.transfersFrom task index inputs outputs).map fun tr => t.keyOf tr.source).Nodup := by
  induction inputs generalizing index outputs with
  | nil => exact List.nodup_nil
  | cons input inputs ih =>
    cases outputs with
    | nil =>
      obtain ⟨hinput, hrest⟩ := List.nodup_cons.mp h
      exact List.nodup_cons.mpr ⟨fun hmem => hinput (mem_sources hmem), ih hrest⟩
    | cons output outputs =>
      have hperm : (input :: inputs ++ output :: outputs).Perm (input :: output :: (inputs ++ outputs)) :=
        List.perm_middle.cons input
      obtain ⟨hinput, hrest⟩ := List.nodup_cons.mp ((hperm.map _).nodup_iff.mp h)
      obtain ⟨houtput, hothers⟩ := List.nodup_cons.mp hrest
      have hfirst : sourceKey t o task input ∉
          (o.transfersFrom task (index + 1) inputs outputs).map fun tr => t.keyOf tr.source :=
        fun hmem => hinput (List.mem_cons_of_mem _ (mem_sources hmem))
      rw [Options.transfersFrom]
      split
      · exact List.nodup_cons.mpr ⟨hfirst, ih hothers⟩
      · refine List.nodup_cons.mpr ⟨fun hmem => ?_, List.nodup_cons.mpr ⟨fun hmem => houtput (mem_sources hmem), ih hothers⟩⟩
        rcases List.mem_cons.mp hmem with he | hmem
        · exact hinput (List.mem_cons.mpr (.inl he))
        · exact hfirst hmem

-- ---------------------------------------------------------------------------
-- Tasks
-- ---------------------------------------------------------------------------

structure Detected (t : Tree) (o : Options) (task : Task) (m : TaskMatch) : Prop where
  name : m.task = task.name
  listed : ∀ r ∈ m.inputs ++ m.outputs, r.path ∈ task.files
  once : ((m.inputs ++ m.outputs).map Record.path).Nodup
  vacantInputs : Detection.Vacant t (o.targetDir m.task) "in" m.inputs.length
  vacantOutputs : Detection.Vacant t (o.targetDir m.task) "out" m.outputs.length
  paired : o.infilesOnly = false → m.outputs.length = m.inputs.length

theorem path_mem_of_records {p : Pattern} {paths : List String} (h : record ∈ p.records paths) : record.path ∈ paths := by
  obtain ⟨path, hpath, hmatch⟩ := List.mem_filterMap.mp h
  rwa [Detection.match?_path hmatch]

theorem detected_of_evaluate
    (h : Detection.evaluate t context ⟨o.infilesOnly, o.workDir⟩ definition scanned = .ok c) :
    List.Forall₂ (Detected t o) scanned c.tasks := by
  obtain ⟨input, output, -, -, hfits, -, hholds⟩ := Detection.evaluate_eq_ok_iff.mp h
  refine ((List.forall₂_and_left _ _).mpr ⟨hfits, hholds⟩).imp fun task m hm => ?_
  obtain ⟨-, hfiles, -⟩ := Detection.fits_and_holds_iff.mp hm
  obtain ⟨honce, hin, hout⟩ := Detection.checkFileSet_eq_ok_iff.mp hfiles
  obtain ⟨hfit, hhold⟩ := hm
  refine ⟨hhold.name, fun r hr => ?_, honce, hin, hout, fun hpairs => ?_⟩
  · obtain rfl := Detection.holds_iff.mp hhold
    rcases List.mem_append.mp hr with hr | hr
    · exact path_mem_of_records (Record.mem_sort.mp hr)
    · have hmem := Record.mem_sort.mp hr
      unfold Detection.outputRecords at hmem
      split at hmem
      · cases hmem
      · exact path_mem_of_records hmem
  · have htests := (hfit.paired hpairs).sameTests.length_eq
    obtain rfl := Detection.holds_iff.mp hhold
    rw [List.length_map, List.length_map] at htests
    simp [Detection.outputRecords, hpairs, htests]

structure Placed (t : Tree) (base : Key) (level : Nat) (m : TaskMatch) (way : Key) : Prop where
  isWay : IsWay way
  name : m.task = Task.wayText way
  depth : way.length = level
  directory : t.find? (base ++ way) = some .directory
  records : ∀ r ∈ m.inputs ++ m.outputs, ∃ down, IsWay down ∧ down ≠ [] ∧ r.path = Task.wayText down ∧
    ∃ content, t.find? (base ++ way ++ down) = some (.file content)

theorem placed_of_scan (ht : t.WellFormed) (hbase : t.find? base = some .directory)
    (h : List.Forall₂ (Detected t o)
      ((Task.waysAt t base level).map fun way => ⟨Task.wayText way, Task.filesAt t (base ++ way)⟩) c.tasks)
    (hm : m ∈ c.tasks) : ∃ way task, Placed t base level m way ∧ Detected t o task m := by
  obtain ⟨task, htask, hdetected⟩ := exists_of_mem_right h hm
  obtain ⟨way, hway, rfl⟩ := List.mem_map.mp htask
  obtain ⟨hdepth, hdir⟩ := (Task.mem_waysAt ht hbase).mp hway
  refine ⟨way, _, ⟨Task.isWay_of_find? ht hdir, hdetected.name, hdepth, hdir, fun r hr => ?_⟩, hdetected⟩
  obtain ⟨down, hdown, ⟨content, hfile⟩, hpath⟩ := (Task.mem_filesAt ht hdir).mp (hdetected.listed r hr)
  exact ⟨down, Task.isWay_of_find? ht hfile, hdown, hpath.symm, content, hfile⟩

namespace Placed

theorem keyOf_targetDir (h : Placed t base level m way) (o : Options) :
    t.keyOf (o.targetDir m.task) = t.keyOf o.workDir ++ way := by
  rw [Options.targetDir, h.name, Tree.keyOf_directory t _ h.isWay]

theorem sourceKey_eq (h : Placed t base level m way) (hroot : t.keyOf o.taskDir = base) {down : Key}
    (hdown : IsWay down) (hpath : record.path = Task.wayText down) :
    sourceKey t o m.task record = base ++ way ++ down := by
  rw [sourceKey, hpath, h.name, Tree.keyOf_join_way t _ hdown, Tree.keyOf_directory t _ h.isWay, hroot]

theorem sourceKeys_nodup (h : Placed t base level m way) (hroot : t.keyOf o.taskDir = base)
    (honce : ((m.inputs ++ m.outputs).map Record.path).Nodup) :
    ((m.inputs ++ m.outputs).map (sourceKey t o m.task)).Nodup := by
  refine List.pairwise_map.mpr ((List.pairwise_map.mp honce).imp_of_mem fun {a b} ha hb hne he => hne ?_)
  obtain ⟨down, hdown, -, hpath, -⟩ := h.records a ha
  obtain ⟨down', hdown', -, hpath', -⟩ := h.records b hb
  rw [h.sourceKey_eq hroot hdown hpath, h.sourceKey_eq hroot hdown' hpath'] at he
  rw [hpath, hpath', List.append_cancel_left he]

theorem look_source (ht : t.WellFormed) (h : Placed t base level m way) (hroot : t.locate o.taskDir = .ok base)
    (hrecord : record ∈ m.inputs ++ m.outputs)
    (hlimits : Tree.WithinLimits (Path.join (Task.directory o.taskDir m.task) record.path)) :
    ∃ content, t.look (Path.join (Task.directory o.taskDir m.task) record.path) =
      .ok (sourceKey t o m.task record, .file content) := by
  obtain ⟨down, hdown, hne, hpath, content, hfile⟩ := h.records record hrecord
  rw [h.sourceKey_eq (Tree.locate_eq_ok hroot).symm hdown hpath, hpath]
  rw [hpath, h.name] at hlimits
  have hlocate := Tree.locate_below ht.fromRoot hlimits hroot h.isWay hdown hne hfile
  rw [← h.name] at hlocate
  exact ⟨content, Tree.look_eq_ok.mpr ⟨hlocate, hfile⟩⟩

theorem not_dot (h : Placed t base level m way) (hne : way ≠ []) (o : Options) :
    (Path.pieces (o.targetDir m.task)).getLast? ≠ some ['.'] := by
  have hway := h.isWay
  rw [Options.targetDir, h.name, Tree.directory_of_ne_nil _ hway hne, pieces_join (isAbsolute_wayText hway),
    pieces_wayText hway]
  obtain hnil | ⟨above, name, rfl⟩ := List.eq_nil_or_concat way
  · exact absurd hnil hne
  · rw [List.concat_eq_append] at hway ⊢
    have hname := hway name (List.mem_append_right _ List.mem_cons_self)
    rw [List.map_append, ← List.append_assoc, List.map_singleton, List.getLast?_concat]
    exact fun he => hname.notHere (String.toList_inj.mp (Option.some.inj he))

end Placed

-- ---------------------------------------------------------------------------
-- Ready to run
-- ---------------------------------------------------------------------------

theorem map_task_of_detected {tasks : List TaskMatch} (h : List.Forall₂ (Detected t o) scanned tasks) :
    tasks.map TaskMatch.task = scanned.map Task.name := by
  induction h with
  | nil => rfl
  | cons hm _ ih => rw [List.map_cons, List.map_cons, hm.name, ih]

theorem tasks_nodup (ht : t.WellFormed) (hbase : t.find? base = some .directory)
    (h : List.Forall₂ (Detected t o)
      ((Task.waysAt t base level).map fun way => ⟨Task.wayText way, Task.filesAt t (base ++ way)⟩) c.tasks) :
    (c.tasks.map TaskMatch.task).Nodup := by
  rw [map_task_of_detected h, List.map_map, List.nodup_iff_pairwise_ne, List.pairwise_map]
  refine (Task.waysAt_nodup ht base level).imp_of_mem fun {a b} ha hb hne he => hne ?_
  have hway (way : Key) (hway : way ∈ Task.waysAt t base level) : IsWay way :=
    Task.isWay_of_find? ht ((Task.mem_waysAt ht hbase).mp hway).2
  exact wayText_injective (hway a ha) (hway b hb) he

theorem mem_transfers_record {tr : Transfer} (h : tr ∈ o.transfers m) :
    ∃ record ∈ m.inputs ++ m.outputs, tr.source = Path.join (Task.directory o.taskDir m.task) record.path := by
  rcases mem_transfersFrom.mp h with ⟨j, record, hrecord, rfl⟩ | ⟨-, j, record, -, hrecord, rfl⟩
  · exact ⟨record, List.mem_append_left _ (List.mem_of_getElem? hrecord), rfl⟩
  · exact ⟨record, List.mem_append_right _ (List.mem_of_getElem? hrecord), rfl⟩

theorem sources_nodup (hroot : t.keyOf o.taskDir = base) {tasks : List TaskMatch}
    (hdistinct : (tasks.map TaskMatch.task).Nodup) (hplaced : ∀ m ∈ tasks, ∃ way, Placed t base level m way)
    (honce : ∀ m ∈ tasks, ((m.inputs ++ m.outputs).map Record.path).Nodup) :
    ((tasks.flatMap o.transfers).map fun tr => t.keyOf tr.source).Nodup := by
  rw [List.map_flatMap]
  refine List.pairwise_flatMap.mpr ⟨fun m hm => ?_, ?_⟩
  · obtain ⟨way, hway⟩ := hplaced m hm
    exact transfersFrom_sources_nodup (hway.sourceKeys_nodup hroot (honce m hm))
  · refine (List.pairwise_map.mp hdistinct).imp_of_mem fun {m m'} hm hm' hne => ?_
    rintro key hkey _ hkey' rfl
    obtain ⟨way, hway⟩ := hplaced m hm
    obtain ⟨way', hway'⟩ := hplaced m' hm'
    obtain ⟨record, hrecord, hsource⟩ := List.mem_map.mp (mem_sources hkey)
    obtain ⟨record', hrecord', hsource'⟩ := List.mem_map.mp (mem_sources hkey')
    obtain ⟨down, hdown, -, hpath, -⟩ := hway.records record hrecord
    obtain ⟨down', hdown', -, hpath', -⟩ := hway'.records record' hrecord'
    rw [hway.sourceKey_eq hroot hdown hpath] at hsource
    rw [hway'.sourceKey_eq hroot hdown' hpath', ← hsource, List.append_assoc, List.append_assoc] at hsource'
    -- All tasks are equally deep.
    have hsame := List.append_inj_left (List.append_cancel_left hsource') (hway'.depth.trans hway.depth.symm)
    exact hne (by rw [hway.name, hway'.name, hsame])

theorem target_not_exists {task : Task} (h : Detected t o task m) {tr : Transfer} (htr : tr ∈ o.transfers m) :
    t.exists? tr.target = false := by
  rcases mem_transfersFrom.mp htr with ⟨j, record, hrecord, rfl⟩ | ⟨-, j, record, -, hrecord, rfl⟩
  · obtain ⟨hj, -⟩ := List.getElem?_eq_some_iff.mp hrecord
    rw [Nat.zero_add, transfer_target]
    exact Bool.eq_false_iff.mpr (h.vacantInputs (j + 1) (by omega) (by omega))
  · obtain ⟨hj, -⟩ := List.getElem?_eq_some_iff.mp hrecord
    rw [Nat.zero_add, transfer_target]
    exact Bool.eq_false_iff.mpr (h.vacantOutputs (j + 1) (by omega) (by omega))

/-- A definition explains the tasks that were scanned, and nothing speaks against converting them. -/
structure Accepted (t : Tree) (o : Options) (level : Nat) (context : Template.Context) (definition : Definition)
    (c : Candidate) : Prop where
  wellFormed : t.WellFormed
  detected : ∃ scanned, Task.scan t o.taskDir level = .ok scanned ∧
    Detection.evaluate t context ⟨o.infilesOnly, o.workDir⟩ definition scanned = .ok c
  checked : check t o c = .ok ()
  noUp : .up ∉ Path.components o.workDir
  marksName : IsName o.marksFile
  marksNotNumbered : ¬ IsNumbered o.marksFile
  /-- What exists of the directories of the tasks, and above them, are directories. -/
  unblocked : ∀ m ∈ c.tasks, t.Unblocked (t.keyOf (o.targetDir m.task))

/-- The operating system takes the paths of a conversion. -/
structure Pathable (t : Tree) (o : Options) (level : Nat) (c : Candidate) : Prop where
  /-- A single task is not put in a missing directory whose path ends in a dot. -/
  named : level = 0 → t.find? (t.keyOf o.workDir) ≠ some .directory → (Path.pieces o.workDir).getLast? ≠ some ['.']
  transfers : ∀ tr ∈ plan o c, Tree.WithinLimits tr.source ∧ Tree.WithinLimits tr.target
  marks : ∀ m ∈ c.tasks, Tree.WithinLimits (o.marksPath m)

theorem Pathable.target (h : Pathable t o level c) {deed : Deed} (hdeed : deed ∈ script o c.tasks) :
    Tree.WithinLimits (deed.target o) := by
  obtain ⟨m, hm, hdeed⟩ := List.mem_flatMap.mp hdeed
  rcases mem_taskScript.mp hdeed with ⟨tr, htr, rfl⟩ | rfl
  · exact (h.transfers tr (mem_plan.mpr ⟨m, hm, htr⟩)).2
  · exact h.marks m hm

/-- What a conversion needs of the tests that were detected: of the marks file only that it is none of the numbered
files that are made. -/
structure Convertible (t : Tree) (o : Options) (level : Nat) (context : Template.Context) (definition : Definition)
    (c : Candidate) : Prop where
  wellFormed : t.WellFormed
  detected : ∃ scanned, Task.scan t o.taskDir level = .ok scanned ∧
    Detection.evaluate t context ⟨o.infilesOnly, o.workDir⟩ definition scanned = .ok c
  checked : check t o c = .ok ()
  noUp : .up ∉ Path.components o.workDir
  marksName : IsName o.marksFile
  marksFresh : ∀ m ∈ c.tasks, MarksFresh o m
  unblocked : ∀ m ∈ c.tasks, t.Unblocked (t.keyOf (o.targetDir m.task))

theorem Accepted.convertible (h : Accepted t o level context definition c) :
    Convertible t o level context definition c :=
  ⟨h.wellFormed, h.detected, h.checked, h.noUp, h.marksName,
    fun m _ => marksFresh_of_not_numbered h.marksNotNumbered m, h.unblocked⟩

namespace Convertible

theorem forall₂_detected (h : Convertible t o level context definition c) :
    ∃ base, t.look o.taskDir = .ok (base, .directory) ∧ List.Forall₂ (Detected t o)
      ((Task.waysAt t base level).map fun way => ⟨Task.wayText way, Task.filesAt t (base ++ way)⟩) c.tasks := by
  obtain ⟨scanned, hscan, hevaluate⟩ := h.detected
  obtain ⟨base, hroot, -, rfl⟩ := Task.scan_eq_ok h.wellFormed.fromRoot hscan
  exact ⟨base, hroot, detected_of_evaluate hevaluate⟩

theorem placed (h : Convertible t o level context definition c) :
    ∃ base, t.locate o.taskDir = .ok base ∧ (c.tasks.map TaskMatch.task).Nodup ∧
      ∀ m ∈ c.tasks, ∃ way task, Placed t base level m way ∧ Detected t o task m := by
  obtain ⟨base, hroot, hdetected⟩ := h.forall₂_detected
  obtain ⟨hlocate, hbase⟩ := Tree.look_eq_ok.mp hroot
  exact ⟨base, hlocate, tasks_nodup h.wellFormed hbase hdetected,
    fun m hm => placed_of_scan h.wellFormed hbase hdetected hm⟩

theorem arranged (h : Convertible t o level context definition c) : Arranged o c.tasks := by
  obtain ⟨base, -, hdistinct, hplaced⟩ := h.placed
  refine ⟨fun m hm => ?_, hdistinct, h.marksName, h.marksFresh⟩
  obtain ⟨way, -, hway, -⟩ := hplaced m hm
  exact ⟨way, hway.isWay, hway.name⟩

theorem depth (h : Convertible t o level context definition c) (hm : m ∈ c.tasks) :
    (t.keyOf (o.targetDir m.task)).length = (t.keyOf o.workDir).length + level := by
  obtain ⟨base, -, -, hplaced⟩ := h.placed
  obtain ⟨way, -, hway, -⟩ := hplaced m hm
  rw [hway.keyOf_targetDir o, List.length_append, hway.depth]

theorem source_file (h : Convertible t o level context definition c) {tr : Transfer}
    (htr : tr ∈ c.tasks.flatMap o.transfers) (hlimits : Tree.WithinLimits tr.source) :
    ∃ content, t.look tr.source = .ok (t.keyOf tr.source, .file content) := by
  obtain ⟨base, hlocate, -, hplaced⟩ := h.placed
  obtain ⟨m, hm, htr⟩ := List.mem_flatMap.mp htr
  obtain ⟨way, -, hway, -⟩ := hplaced m hm
  obtain ⟨record, hrecord, hsource⟩ := mem_transfers_record htr
  rw [hsource] at hlimits ⊢
  exact hway.look_source h.wellFormed hlocate hrecord hlimits

theorem sources_distinct (h : Convertible t o level context definition c) :
    ((c.tasks.flatMap o.transfers).map fun tr => t.keyOf tr.source).Nodup := by
  obtain ⟨base, hlocate, hdistinct, hplaced⟩ := h.placed
  have hways (m : TaskMatch) (hm : m ∈ c.tasks) : ∃ way, Placed t base level m way := by
    obtain ⟨way, -, hway, -⟩ := hplaced m hm
    exact ⟨way, hway⟩
  refine sources_nodup (Tree.locate_eq_ok hlocate).symm hdistinct hways fun m hm => ?_
  obtain ⟨-, task, -, hdetect⟩ := hplaced m hm
  exact hdetect.once

theorem target_vacant (h : Convertible t o level context definition c) {deed : Deed} (hdeed : deed ∈ script o c.tasks) :
    t.exists? (deed.target o) = false := by
  obtain ⟨base, -, -, hplaced⟩ := h.placed
  obtain ⟨m, hm, hdeed⟩ := List.mem_flatMap.mp hdeed
  obtain ⟨-, task, -, hdetect⟩ := hplaced m hm
  rcases mem_taskScript.mp hdeed with ⟨tr, htr, rfl⟩ | rfl
  · exact target_not_exists hdetect htr
  · exact (check_eq_ok.mp h.checked).2 m hm

theorem target_not_dot (h : Convertible t o level context definition c) (hpaths : Pathable t o level c) (hm : m ∈ c.tasks)
    (hmissing : t.find? (t.keyOf (o.targetDir m.task)) ≠ some .directory) :
    (Path.pieces (o.targetDir m.task)).getLast? ≠ some ['.'] := by
  obtain ⟨base, -, -, hplaced⟩ := h.placed
  obtain ⟨way, -, hway, -⟩ := hplaced m hm
  by_cases hnil : way = []
  · subst hnil
    rw [Options.targetDir, hway.name] at hmissing ⊢
    exact hpaths.named hway.depth.symm hmissing
  · exact hway.not_dot hnil o

theorem ready (h : Convertible t o level context definition c) (hpaths : Pathable t o level c) :
    Ready t o level c.tasks where
  wellFormed := h.wellFormed
  arranged := h.arranged
  noUp := h.noUp
  depth := fun _ => h.depth
  sources := fun tr htr => h.source_file htr (hpaths.transfers tr (mem_plan.mpr (List.mem_flatMap.mp htr))).1
  distinct := h.sources_distinct
  vacant := fun _ => h.target_vacant
  unblocked := h.unblocked
  named := fun _ => h.target_not_dot hpaths
  limits := fun _ => hpaths.target

theorem pathable {report : Report} (h : Convertible t o level context definition c)
    (hok : (apply t o c).result = .ok report) : Pathable t o level c := by
  obtain ⟨base, hroot, hdetected⟩ := h.forall₂_detected
  obtain ⟨p, hwork⟩ := tasks_of_apply hok
  have hlimits := tasks_withinLimits hwork
  refine ⟨?_, fun tr htr => ?_, fun m hm => (hlimits m hm).2⟩
  · rintro rfl hmissing hdot
    -- The only task has the directory itself.
    rw [Task.waysAt_zero (Tree.look_eq_ok.mp hroot).2] at hdetected
    obtain ⟨m, more, hm, -, htasks⟩ := List.forall₂_cons_left_iff.mp hdetected
    rw [htasks] at hwork
    obtain ⟨_, p₁, htask, -⟩ := stateBind_eq_ok.mp hwork
    obtain ⟨_, p₂, hensure, -⟩ := stateBind_eq_ok.mp htask
    rw [Options.targetDir, hm.name] at hensure
    exact hmissing (ensureDir_of_dot h.wellFormed h.noUp hdot hensure)
  · obtain ⟨m, hm, htr⟩ := mem_plan.mp htr
    exact (hlimits m hm).1 tr htr

end Convertible

theorem pathable_of_ok {report : Report} (h : Accepted t o level context definition c)
    (hok : (apply t o c).result = .ok report) : Pathable t o level c := h.convertible.pathable hok

-- ---------------------------------------------------------------------------
-- The tree in the end
-- ---------------------------------------------------------------------------

def numberedKey (t : Tree) (o : Options) (task : String) (index : Nat) (isInput : Bool) : Key :=
  t.keyOf (Path.join (o.targetDir task) (Detection.numbered index (extension isInput)))

theorem keyOf_numbered (t : Tree) (o : Options) (task : String) (isInput : Bool) (index : Nat) (record : Record) :
    t.keyOf (o.transfer task isInput index record).target = numberedKey t o task index isInput := rfl

/-- A tree in which all tests of a candidate are converted, beside the tree before. -/
structure Complete (t : Tree) (o : Options) (c : Candidate) (t' : Tree) : Prop where
  inputs : ∀ m ∈ c.tasks, ∀ i r, m.inputs[i]? = some r → ∃ content,
    t.fileAt (sourceKey t o m.task r) = some content ∧ t'.fileAt (numberedKey t o m.task i true) = some content
  outputs : o.infilesOnly = false → ∀ m ∈ c.tasks, ∀ i r, m.outputs[i]? = some r → ∃ content,
    t.fileAt (sourceKey t o m.task r) = some content ∧ t'.fileAt (numberedKey t o m.task i false) = some content
  marks : ∀ m ∈ c.tasks, t'.fileAt (t.keyOf (o.marksPath m)) = some (marksContent m)
  /-- After a move the sources are gone. -/
  moved : o.mode = .move → ∀ tr ∈ plan o c, t'.fileAt (t.keyOf tr.source) = none
  /-- All other files are as they were. -/
  kept : ∀ key content, t.fileAt key = some content →
    (o.mode = .move → ∀ tr ∈ plan o c, t.keyOf tr.source ≠ key) → t'.fileAt key = some content
  /-- No file is new but these. -/
  new : ∀ key content, t.fileAt key = none → t'.fileAt key = some content →
    ∃ deed ∈ script o c.tasks, t.keyOf (deed.target o) = key
  /-- Directories are new where a task needs them, and gone where cleaning up finds no file. -/
  directories : Housed t o c.tasks t'

theorem Complete.vacant {t' : Tree} {key : Key} (h : Complete t o c t') (hnone : t.find? key = none)
    (hfiles : ∀ deed ∈ script o c.tasks, t.keyOf (deed.target o) ≠ key)
    (hdirectories : ∀ m ∈ c.tasks, ¬ key <+: t.keyOf (o.targetDir m.task)) : t'.find? key = none := by
  cases hfind : t'.find? key with
  | none => rfl
  | some entry =>
    cases entry with
    | directory =>
      rcases h.directories.wanted key hfind with hthere | ⟨m, hm, habove⟩
      · cases hnone.symm.trans hthere
      · exact absurd habove (hdirectories m hm)
    | file content =>
      have hbefore : t.fileAt key = none := by
        rw [Tree.fileAt, hnone]
        rfl
      obtain ⟨deed, hdeed, hkey⟩ := h.new key content hbefore (Tree.fileAt_eq_some_iff.mpr hfind)
      exact absurd hkey (hfiles deed hdeed)

theorem Convertible.converts (h : Convertible t o level context definition c) (hpaths : Pathable t o level c) :
    (∃ report, (apply t o c).result = .ok report) ∧ (apply t o c).transfers = plan o c ∧
      Complete t o c (apply t o c).tree := by
  obtain ⟨base, hroot, hdetected⟩ := h.forall₂_detected
  obtain ⟨hlocate, hbase⟩ := Tree.look_eq_ok.mp hroot
  obtain rfl := Tree.locate_eq_ok hlocate
  have hready := h.ready hpaths
  obtain ⟨hresult, htransfers, hconverted, hdirectories⟩ := hready.applied h.checked hroot
  have hplan := plan_eq o c
  have htransfer {m : TaskMatch} (hm : m ∈ c.tasks) {tr : Transfer} (htr : tr ∈ o.transfers m) :=
    hconverted.transferred tr (List.mem_flatMap.mpr ⟨m, hm, htr⟩)
  refine ⟨hresult, htransfers, fun m hm i r hr => ?_, fun hboth m hm i r hr => ?_, hconverted.marks, hplan ▸ hconverted.moved,
    fun key content hfile hsource => ?_, fun key content hnone hfile => ?_, hdirectories⟩
  · have htr : o.transfer m.task true i r ∈ o.transfers m :=
      mem_transfersFrom.mpr (.inl ⟨i, r, hr, by rw [Nat.zero_add]⟩)
    have hdone := htransfer hm htr
    rwa [keyOf_source, keyOf_numbered] at hdone
  · obtain ⟨-, task, -, hdetect⟩ := placed_of_scan h.wellFormed hbase hdetected hm
    obtain ⟨hi, -⟩ := List.getElem?_eq_some_iff.mp hr
    rw [hdetect.paired hboth] at hi
    have htr : o.transfer m.task false i r ∈ o.transfers m :=
      mem_transfersFrom.mpr (.inr ⟨hboth, i, r, hi, hr, by rw [Nat.zero_add]⟩)
    have hdone := htransfer hm htr
    rwa [keyOf_source, keyOf_numbered] at hdone
  · rw [hconverted.stays key (fun deed hdeed he => ?_) (hplan ▸ hsource), hfile]
    rw [← he, Tree.fileAt, hready.target_vacant hdeed] at hfile
    cases hfile
  · refine Classical.byContradiction fun hnew => ?_
    rw [hconverted.stays key (fun deed hdeed he => hnew ⟨deed, hdeed, he⟩) fun hmove tr htr he => ?_, hnone] at hfile
    · cases hfile
    · obtain ⟨content', hsource⟩ := hready.source_file htr
      rw [he, hnone] at hsource
      cases hsource

theorem converts_of_pathable (h : Accepted t o level context definition c) (hpaths : Pathable t o level c) :
    (∃ report, (apply t o c).result = .ok report) ∧ (apply t o c).transfers = plan o c ∧
      Complete t o c (apply t o c).tree := h.convertible.converts hpaths

/-- If a definition is accepted, its tests are converted exactly if the operating system takes the paths. -/
theorem accepted_converts (h : Accepted t o level context definition c) :
    ((∃ report, (apply t o c).result = .ok report) ↔ Pathable t o level c) ∧
      (Pathable t o level c → (apply t o c).transfers = plan o c ∧ Complete t o c (apply t o c).tree) := by
  refine ⟨⟨?_, fun hpaths => (converts_of_pathable h hpaths).1⟩, fun hpaths => (converts_of_pathable h hpaths).2⟩
  rintro ⟨report, hok⟩
  exact pathable_of_ok h hok

-- ---------------------------------------------------------------------------
-- Two tasks
-- ---------------------------------------------------------------------------

def groupScheme : Definition := ⟨"plain", "$\x7bS\x7d.in", "$\x7bS\x7d.out", .none⟩

def testFiles (task : String) (index : Nat) : List (Key × Entry) :=
  [(["tasks", task, Detection.numbered index "in"], .file (task ++ Text.decimal index).toUTF8),
    (["tasks", task, Detection.numbered index "out"], .file (task ++ Text.decimal index ++ "\n").toUTF8)]

def twoTasks : Tree :=
  ⟨[(["tasks"], .directory), (["tasks", "a"], .directory), (["tasks", "b"], .directory)] ++
    (List.range 10).flatMap (testFiles "a") ++ (List.range 2).flatMap (testFiles "b"), [], fun _ _ => false⟩

def testRecords (extension : String) (indices : List Nat) : List Record :=
  indices.map fun index => ⟨Detection.numbered index extension, "", index + 1, 1⟩

def listedTask (name : String) (indices : List Nat) : Task :=
  ⟨name, indices.flatMap fun index => [Detection.numbered index "in", Detection.numbered index "out"]⟩

/-- In the order of the files the tenth test is the second. -/
def tenListed : List Nat := [0, 9, 1, 2, 3, 4, 5, 6, 7, 8]

def twoTasksListed : List Task := [listedTask "a" tenListed, listedTask "b" [0, 1]]

def detectedTask (name : String) (count : Nat) : TaskMatch :=
  ⟨name, testRecords "in" (List.range count), testRecords "out" (List.range count)⟩

def twoTasksTests : Candidate := ⟨"plain", [detectedTask "a" 10, detectedTask "b" 2]⟩

def convertTasks (mode : TransferMode) (taskDir workDir : String) : Options :=
  ⟨taskDir, workDir, mode, true, false, "marks.txt"⟩

theorem twoTasks_wellFormed : twoTasks.WellFormed := by decide +kernel

theorem twoTasks_scan : Task.scan twoTasks "tasks" 1 = .ok twoTasksListed := by decide +kernel

theorem sort_testRecords {indices : List Nat} {count : Nat} (h : indices.Perm (List.range count)) (extension : String) :
    Record.sort (testRecords extension indices) = testRecords extension (List.range count) := by
  have hkeys : (testRecords extension indices).map Record.key = indices.map fun index => (index + 1, 1) := List.map_map
  refine Record.sort_eq_of_ordered_perm (h.map _) ?_ ?_
  · rw [hkeys, (h.map _).nodup_iff]
    exact List.nodup_range.map fun a b he => Nat.succ.inj (Prod.mk.inj he).1
  · refine List.pairwise_map.mpr (List.pairwise_lt_range.imp fun hlt => Record.notAfter_iff.mpr (.inl ?_))
    exact Nat.succ_lt_succ hlt

theorem twoTasks_detected {t : Tree} {workDir : String}
    (hfirst : Detection.checkFileSet t workDir (detectedTask "a" 10) = .ok ())
    (hsecond : Detection.checkFileSet t workDir (detectedTask "b" 2) = .ok ()) :
    Detection.evaluate t .default ⟨false, workDir⟩ groupScheme twoTasksListed = .ok twoTasksTests := by
  obtain ⟨input, output, hinput, houtput, hten, htwo⟩ :
      ∃ input output, Pattern.compile .default groupScheme.input = .ok input ∧
        Pattern.compile .default groupScheme.output = .ok output ∧
        Detection.classify input output false (Task.label "a") (listedTask "a" tenListed).files =
          .ok (testRecords "in" tenListed, testRecords "out" tenListed) ∧
        Detection.classify input output false (Task.label "b") (listedTask "b" [0, 1]).files =
          .ok (testRecords "in" [0, 1], testRecords "out" [0, 1]) :=
    ⟨_, _, rfl, rfl, by decide +kernel, by decide +kernel⟩
  have hperm : tenListed.Perm (List.range 10) ∧ [0, 1].Perm (List.range 2) := by decide
  have hpairs : Detection.checkPairs (detectedTask "a" 10) = .ok () ∧
      Detection.checkPairs (detectedTask "b" 2) = .ok () := by decide +kernel
  have ha : Detection.matchTask input output false (listedTask "a" tenListed) = .ok (detectedTask "a" 10) :=
    Detection.matchTask_sorted hten rfl (sort_testRecords hperm.1 "in") (sort_testRecords hperm.1 "out")
  have hb : Detection.matchTask input output false (listedTask "b" [0, 1]) = .ok (detectedTask "b" 2) :=
    Detection.matchTask_sorted htwo rfl (sort_testRecords hperm.2 "in") (sort_testRecords hperm.2 "out")
  exact Detection.evaluate_matched hinput houtput (.cons ⟨ha, hfirst, hpairs.1⟩ (.cons ⟨hb, hsecond, hpairs.2⟩ .nil))

theorem evaluate_twoTasks :
    Detection.evaluate twoTasks .default ⟨false, "w"⟩ groupScheme twoTasksListed = .ok twoTasksTests :=
  twoTasks_detected (by decide +kernel) (by decide +kernel)

theorem twoTasks_accepted (mode : TransferMode) :
    Accepted twoTasks (convertTasks mode "tasks" "w") 1 .default groupScheme twoTasksTests := by
  have hmarks : ¬ IsNumbered "marks.txt" := not_isNumbered rfl rfl
  cases mode with
  | copy =>
    exact ⟨twoTasks_wellFormed, ⟨_, twoTasks_scan, evaluate_twoTasks⟩, by decide +kernel, by decide, by decide, hmarks,
      by decide +kernel⟩
  | move =>
    exact ⟨twoTasks_wellFormed, ⟨_, twoTasks_scan, evaluate_twoTasks⟩, by decide +kernel, by decide, by decide, hmarks,
      by decide +kernel⟩

theorem twoTasks_pathable (mode : TransferMode) : Pathable twoTasks (convertTasks mode "tasks" "w") 1 twoTasksTests := by
  refine ⟨fun h => (nomatch h), ?_, ?_⟩
  all_goals cases mode <;> decide +kernel

theorem accepted_converts_twoTasks :
    (Accepted twoTasks (convertTasks .move "tasks" "w") 1 .default groupScheme twoTasksTests ∧
      Pathable twoTasks (convertTasks .move "tasks" "w") 1 twoTasksTests) ∧
      (∃ report, (apply twoTasks (convertTasks .move "tasks" "w") twoTasksTests).result = .ok report) ∧
      (apply twoTasks (convertTasks .move "tasks" "w") twoTasksTests).transfers =
        plan (convertTasks .move "tasks" "w") twoTasksTests ∧
      Complete twoTasks (convertTasks .move "tasks" "w") twoTasksTests
        (apply twoTasks (convertTasks .move "tasks" "w") twoTasksTests).tree ∧
      (apply twoTasks (convertTasks .move "tasks" "w") twoTasksTests).tree.fileAt ["w", "a", "10.out"] =
        some "a9\n".toUTF8 := by
  have haccepted := twoTasks_accepted .move
  have hpaths := twoTasks_pathable .move
  obtain ⟨hsucceeds, hdone⟩ := accepted_converts haccepted
  obtain ⟨htransfers, hcomplete⟩ := hdone hpaths
  refine ⟨⟨haccepted, hpaths⟩, hsucceeds.mpr hpaths, htransfers, hcomplete, ?_⟩
  obtain ⟨content, hsource, htarget⟩ := hcomplete.outputs rfl _ List.mem_cons_self 9 _ rfl
  cases hsource
  exact htarget

-- ---------------------------------------------------------------------------
-- A single test
-- ---------------------------------------------------------------------------

def oneTest : Tree := (Tree.empty.put ["tasks"] .directory).put ["tasks", "1.in"] (.file .empty)

def oneInput : Candidate := ⟨"plain", [⟨"", [⟨"1.in", "", 1, 1⟩], []⟩]⟩

def moveInto (workDir marksFile : String) : Options := ⟨"tasks", workDir, .move, true, true, marksFile⟩

theorem oneTest_wellFormed : oneTest.WellFormed := by decide

theorem oneTest_scan : Task.scan oneTest "tasks" 0 = .ok [⟨"", ["1.in"]⟩] := by
  decide +kernel

theorem oneInput_detected {t : Tree} {workDir : String} (htarget : t.exists? (Path.join workDir "1.in") = false) :
    Detection.evaluate t .default ⟨true, workDir⟩ groupScheme [⟨"", ["1.in"]⟩] = .ok oneInput := by
  have hinput : ∃ input, Pattern.compile .default groupScheme.input = .ok input ∧
      input.match? "1.in" = some ⟨"1.in", "", 1, 1⟩ := ⟨_, rfl, by decide +kernel⟩
  have houtput : ∃ output, Pattern.compile .default groupScheme.output = .ok output := ⟨_, rfl⟩
  obtain ⟨input, hcompile, hmatch⟩ := hinput
  obtain ⟨output, hcompile'⟩ := houtput
  exact Detection.evaluate_single hcompile hcompile' hmatch htarget

theorem oneTest_accepted {workDir marksFile : String} (hkey : oneTest.keyOf workDir = ["w"])
    (htarget : oneTest.exists? (Path.join workDir "1.in") = false)
    (hcheck : check oneTest (moveInto workDir marksFile) oneInput = .ok ()) (hup : .up ∉ Path.components workDir)
    (hmarks : IsName marksFile) (hnumbered : ¬ IsNumbered marksFile) :
    Accepted oneTest (moveInto workDir marksFile) 0 .default groupScheme oneInput := by
  refine ⟨oneTest_wellFormed, ⟨_, oneTest_scan, oneInput_detected htarget⟩, hcheck, hup, hmarks, hnumbered,
    fun m hm => ?_⟩
  have hfree : oneTest.Unblocked (oneTest.keyOf workDir) := hkey ▸ (by decide : oneTest.Unblocked ["w"])
  rwa [List.mem_singleton.mp hm]

def longName : String := String.ofList (List.replicate 256 'm')

/-- A single task is not put in a missing directory whose path ends in a dot, and no marks file gets a name of 256
bytes. -/
theorem accepted_not_converted :
    (Accepted oneTest (moveInto "w/." "marks.txt") 0 .default groupScheme oneInput ∧
      ∀ report, (apply oneTest (moveInto "w/." "marks.txt") oneInput).result ≠ .ok report) ∧
    Accepted oneTest (moveInto "w" longName) 0 .default groupScheme oneInput ∧
      ∀ report, (apply oneTest (moveInto "w" longName) oneInput).result ≠ .ok report := by
  have hlong : longName.toList = List.replicate 256 'm' := String.toList_ofList
  have hhead : longName.toList = 'm' :: List.replicate 255 'm' := hlong.trans List.replicate_succ
  have hname : IsName longName := by
    have hne {s : String} (hs : s.toList.length ≠ 256) : longName ≠ s := by
      rintro rfl
      rw [hlong] at hs
      exact hs List.length_replicate
    refine ⟨hne (by decide), fun hslash => ?_, hne (by decide), hne (by decide)⟩
    rw [hlong] at hslash
    cases (List.mem_replicate.mp hslash).2
  have hdotted : Accepted oneTest (moveInto "w/." "marks.txt") 0 .default groupScheme oneInput :=
    oneTest_accepted (by decide) (by decide) (by decide +kernel) (by decide) (by decide) (not_isNumbered rfl rfl)
  have hlongMarks : Accepted oneTest (moveInto "w" longName) 0 .default groupScheme oneInput := by
    refine oneTest_accepted (by decide) (by decide) (check_eq_ok.mpr ⟨by decide, fun m hm => ?_⟩) (by decide) hname
      (not_isNumbered hhead rfl)
    refine Tree.not_exists_of_find? ?_
    rw [List.mem_singleton.mp hm, @keyOf_marksPath (moveInto "w" longName) oneTest hname]
    rfl
  refine ⟨⟨hdotted, fun report he => ?_⟩, hlongMarks, fun report he => ?_⟩
  · refine (pathable_of_ok hdotted he).named rfl (fun hdir => ?_) rfl
    cases hdir
  · -- The marks would be in a file of that name.
    have hlimits := ((pathable_of_ok hlongMarks he).marks _ List.mem_cons_self).names (.entry longName) (by
      rw [Options.marksPath, moveInto, Tree.stepsOf_join_name _ hname]
      exact List.mem_append_right _ List.mem_cons_self)
    revert hlimits
    decide +kernel

end ContestTests.Conversion
