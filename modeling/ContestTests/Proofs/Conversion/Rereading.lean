import ContestTests.Proofs.Conversion.Absolute
import ContestTests.Proofs.Conversion.Repetition
import ContestTests.Proofs.Detection.Numbered

/-!
# Reading a conversion back

A conversion into a directory that was not there leaves tasks of its own: the same ones, each with the numbered
files of its tests and its marks file. Scanned and detected by their numbers, they give the tests in their order.
-/

namespace ContestTests.Conversion

open ContestTests.Path
open ContestTests.Detection (groupTemplate side side_true side_false Lists renumbered Renumberable numberedRecord
  length_inputs_renumbered)

variable {t t' : Tree} {o : Options} {c : Candidate} {m : TaskMatch} {level : Nat} {way : Key} {report : Report}
  {scanned : List Task} {context : Template.Context} {definition : Definition} {inputs : List Record} {record : Record}
  {name : String}

-- ---------------------------------------------------------------------------
-- Names of marks files
-- ---------------------------------------------------------------------------

def Apart (name : String) : Prop :=
  ∀ isInput p, Pattern.compile .default (groupTemplate isInput) = .ok p → p.match? name = none

theorem Apart.match?_none (h : Apart name) {isInput : Bool} {p : Pattern}
    (hp : Pattern.compile context (groupTemplate isInput) = .ok p) : p.match? name = none := by
  obtain ⟨q, hq⟩ := Detection.exists_compile_groupTemplate .default isInput
  exact Detection.groupTemplate_match?_none hq hp (h isInput q hq)

theorem Apart.ne_numbered (h : Apart name) {isInput : Bool} {index : Nat} (hindex : index + 1 < Text.bound32) :
    name ≠ Detection.numbered index (extension isInput) := by
  rintro rfl
  obtain ⟨q, hq⟩ := Detection.exists_compile_groupTemplate .default isInput
  have hmatch := (Detection.numbered_match? hq).mpr ⟨hindex, rfl, rfl⟩
  rw [h isInput q hq] at hmatch
  cases hmatch

-- ---------------------------------------------------------------------------
-- Conversions into a new directory
-- ---------------------------------------------------------------------------

/-- Tests that are accepted for a directory that does not exist, and a marks file that will be none of them. -/
structure Outbound (t : Tree) (o : Options) (level : Nat) (context : Template.Context) (definition : Definition)
    (scanned : List Task) (c : Candidate) : Prop where
  wellFormed : t.WellFormed
  scan : Task.scan t o.taskDir level = .ok scanned
  evaluate : Detection.evaluate t context ⟨o.infilesOnly, o.workDir⟩ definition scanned = .ok c
  noUp : .up ∉ components o.workDir
  vacant : t.exists? o.workDir = false
  marksName : IsName o.marksFile
  marksApart : Apart o.marksFile
  bound : ∀ m ∈ c.tasks, m.inputs.length < Text.bound32

/-- The empty path exists nowhere, even where its files do. -/
structure Fresh (t : Tree) (o : Options) (level : Nat) (context : Template.Context) (definition : Definition)
    (scanned : List Task) (c : Candidate) : Prop extends Outbound t o level context definition scanned c where
  nonempty : o.workDir ≠ ""

theorem transfersFrom_cons (o : Options) (task : String) (index : Nat) (input : Record) (inputs outputs : List Record) :
    ∃ trs, o.transfersFrom task index (input :: inputs) outputs = o.transfer task true index input :: trs := by
  cases outputs with
  | nil => exact ⟨_, rfl⟩
  | cons output outputs =>
    rw [Options.transfersFrom]
    split
    · exact ⟨_, rfl⟩
    · exact ⟨_, rfl⟩

theorem script_cons (o : Options) (more : List TaskMatch) (h : m.inputs = record :: inputs) :
    ∃ deeds, script o (m :: more) = .transfer (o.transfer m.task true 0 record) :: deeds := by
  obtain ⟨trs, htrs⟩ := transfersFrom_cons o m.task 0 record inputs m.outputs
  refine ⟨trs.map .transfer ++ .marks m :: script o more, ?_⟩
  rw [script, List.flatMap_cons, taskScript, Options.transfers, h, htrs]
  simp [script]

theorem target_cases (t : Tree) (h : IsName o.marksFile) {deed : Deed} (hdeed : deed ∈ taskScript o m) :
    ∃ name, t.keyOf (deed.target o) = t.keyOf (o.targetDir m.task) ++ [name] ∧ (name = o.marksFile ∨
      ∃ isInput index, index < (side m isInput).length ∧ name = Detection.numbered index (extension isInput)) := by
  rcases mem_taskScript.mp hdeed with ⟨tr, htr, rfl⟩ | rfl
  · rcases mem_transfersFrom.mp htr with ⟨j, record, hrecord, rfl⟩ | ⟨-, j, record, -, hrecord, rfl⟩
    · obtain ⟨hj, -⟩ := List.getElem?_eq_some_iff.mp hrecord
      exact ⟨_, keyOf_target t o m.task true _ record, .inr ⟨true, _, by rwa [Nat.zero_add], rfl⟩⟩
    · obtain ⟨hj, -⟩ := List.getElem?_eq_some_iff.mp hrecord
      exact ⟨_, keyOf_target t o m.task false _ record, .inr ⟨false, _, by rwa [Nat.zero_add], rfl⟩⟩
  · exact ⟨_, keyOf_marksPath t h m, .inl rfl⟩

theorem Placed.numberedKey_eq {base : Key} (h : Placed t base level m way) (o : Options) (index : Nat)
    (isInput : Bool) : numberedKey t o m.task index isInput =
      t.keyOf o.workDir ++ way ++ [Detection.numbered index (extension isInput)] := by
  rw [numberedKey, Tree.keyOf_join_name t _ (isName_numbered index isInput), h.keyOf_targetDir]

namespace Fresh

theorem found (h : Fresh t o level context definition scanned c) : Found t o level c :=
  found_of_evaluate h.wellFormed h.scan h.evaluate

theorem detected (h : Fresh t o level context definition scanned c) : List.Forall₂ (Detected t o)
    ((Task.waysAt t (t.keyOf o.taskDir) level).map fun way =>
      ⟨Task.wayText way, Task.filesAt t (t.keyOf o.taskDir ++ way)⟩) c.tasks := by
  obtain ⟨base, hlook, -, htasks⟩ := Task.scan_eq_ok h.wellFormed.fromRoot h.scan
  obtain rfl := Tree.locate_eq_ok (Tree.look_eq_ok.mp hlook).1
  exact htasks ▸ detected_of_evaluate h.evaluate

theorem base_directory (h : Fresh t o level context definition scanned c) :
    t.find? (t.keyOf o.taskDir) = some .directory := by
  obtain ⟨base, hlook, -⟩ := Task.scan_eq_ok h.wellFormed.fromRoot h.scan
  obtain rfl := Tree.locate_eq_ok (Tree.look_eq_ok.mp hlook).1
  exact (Tree.look_eq_ok.mp hlook).2

theorem exists_way (h : Fresh t o level context definition scanned c) (hm : m ∈ c.tasks) :
    ∃ way, IsWay way ∧ m.task = Task.wayText way := by
  obtain ⟨way, -, hplaced, -⟩ := h.found.placed m hm
  exact ⟨way, hplaced.isWay, hplaced.name⟩

theorem exists_task (h : Fresh t o level context definition scanned c) : ∃ m more, c.tasks = m :: more := by
  have hlength := (detected_of_evaluate h.evaluate).length_eq
  exact List.exists_cons_of_ne_nil fun hnil =>
    Task.scan_ne_nil h.scan (List.length_eq_zero_iff.mp (by rw [hlength, hnil]; rfl))

theorem marksFresh (h : Fresh t o level context definition scanned c) : ∀ m ∈ c.tasks, MarksFresh o m := by
  intro m hm index isInput hindex
  have hbound := h.bound m hm
  exact h.marksApart.ne_numbered (by omega)

theorem withinLimits_workDir (h : Fresh t o level context definition scanned c)
    (hok : (apply t o c).result = .ok report) : Tree.WithinLimits o.workDir := by
  obtain ⟨p, hwork⟩ := tasks_of_apply hok
  obtain ⟨m, more, hm⟩ := h.exists_task
  have hmem : m ∈ c.tasks := hm ▸ List.mem_cons_self
  obtain ⟨way, hway, hname⟩ := h.exists_way hmem
  have hlimits := (tasks_withinLimits hwork m hmem).2
  rw [Options.marksPath, Options.targetDir, hname] at hlimits
  have hdirectory := hlimits.of_join h.marksName.isAbsolute (Tree.directory_ne_empty h.nonempty hway)
  exact hdirectory.of_directory hway h.nonempty

theorem unblocked_workDir (h : Fresh t o level context definition scanned c)
    (hok : (apply t o c).result = .ok report) : t.Unblocked (t.keyOf o.workDir) := by
  obtain ⟨-, after, hrun, -⟩ := run_of_ok hok
  obtain ⟨m, more, hm⟩ := h.exists_task
  have hmem : m ∈ c.tasks := hm ▸ List.mem_cons_self
  obtain ⟨way, -, hplaced, -⟩ := h.found.placed m hmem
  obtain ⟨record, inputs, hinputs⟩ := List.exists_cons_of_ne_nil (Detection.inputs_ne_nil h.evaluate m hmem)
  obtain ⟨deeds, hdeeds⟩ := script_cons o more hinputs
  have hway := h.found.underway
  rw [hm, hdeeds] at hrun hway
  have hkey := keyOf_target t o m.task true 0 record
  rw [hplaced.keyOf_targetDir] at hkey
  exact fun key hdown => hrun.unblocked hway hkey key (hdown.trans (List.prefix_append _ _))

theorem missing (h : Fresh t o level context definition scanned c) (hok : (apply t o c).result = .ok report)
    (way : Key) : t.find? (t.keyOf o.workDir ++ way) = none := by
  have hnone : t.find? (t.keyOf o.workDir) = none := by
    cases hfind : t.find? (t.keyOf o.workDir) with
    | none => rfl
    | some entry =>
      cases entry with
      | file content => exact absurd hfind (h.unblocked_workDir hok _ List.prefix_rfl content)
      | directory =>
        have hlocate := Tree.locate_of_directory h.wellFormed (h.withinLimits_workDir hok) h.noUp hfind
        have hexists : t.exists? o.workDir := Tree.exists?_iff.mpr ⟨_, hlocate, hfind⟩
        rw [h.vacant] at hexists
        cases hexists
  by_cases hway : way = []
  · rw [hway, List.append_nil, hnone]
  · cases hfind : t.find? (t.keyOf o.workDir ++ way) with
    | none => rfl
    | some entry =>
      rw [h.wellFormed.find?_above hfind hway] at hnone
      cases hnone

theorem convertible (h : Fresh t o level context definition scanned c) (hok : (apply t o c).result = .ok report) :
    Convertible t o level context definition c := by
  refine ⟨h.wellFormed, ⟨_, h.scan, h.evaluate⟩, check_of_ok hok, h.noUp, h.marksName, h.marksFresh,
    fun m hm key hdown content hfile => ?_⟩
  obtain ⟨way, -, hplaced, -⟩ := h.found.placed m hm
  rw [hplaced.keyOf_targetDir] at hdown
  rcases List.prefix_or_prefix_of_prefix hdown (List.prefix_append _ _) with habove | ⟨down, rfl⟩
  · exact h.unblocked_workDir hok key habove content hfile
  · rw [h.missing hok] at hfile
    cases hfile

theorem complete (h : Fresh t o level context definition scanned c) (hok : (apply t o c).result = .ok report) :
    Complete t o c (apply t o c).tree :=
  ((h.convertible hok).converts ((h.convertible hok).pathable hok)).2.2

-- ---------------------------------------------------------------------------
-- What stands there
-- ---------------------------------------------------------------------------

theorem numbered_file (h : Fresh t o level context definition scanned c) (hok : (apply t o c).result = .ok report)
    (hm : m ∈ c.tasks) {isInput : Bool} {index : Nat} (hindex : index < (side m isInput).length) :
    ∃ content, (apply t o c).tree.fileAt (numberedKey t o m.task index isInput) = some content := by
  have hcomplete := h.complete hok
  cases isInput with
  | true =>
    obtain ⟨content, -, hfile⟩ := hcomplete.inputs m hm index _ (List.getElem?_eq_getElem hindex)
    exact ⟨content, hfile⟩
  | false =>
    cases hinfiles : o.infilesOnly with
    | true =>
      rw [Detection.side_false, Detection.outputs_eq_nil h.evaluate hinfiles m hm] at hindex
      cases hindex
    | false =>
      obtain ⟨content, -, hfile⟩ := hcomplete.outputs hinfiles m hm index _ (List.getElem?_eq_getElem hindex)
      exact ⟨content, hfile⟩

theorem exists_placed (h : Fresh t o level context definition scanned c) (hlength : way.length = level)
    (hdir : t.find? (t.keyOf o.taskDir ++ way) = some .directory) :
    ∃ m ∈ c.tasks, Placed t (t.keyOf o.taskDir) level m way := by
  have hway := (Task.mem_waysAt h.wellFormed h.base_directory).mpr ⟨hlength, hdir⟩
  obtain ⟨m, hm, hdetected⟩ := exists_of_mem_right h.detected.flip (List.mem_map_of_mem hway)
  obtain ⟨way', -, hplaced, -⟩ := h.found.placed m hm
  have hname := hdetected.name.symm.trans hplaced.name
  obtain rfl := wayText_injective (Task.isWay_of_find? h.wellFormed hdir) hplaced.isWay hname
  exact ⟨m, hm, hplaced⟩

theorem task_directory (h : Fresh t o level context definition scanned c) (hok : (apply t o c).result = .ok report)
    (hm : m ∈ c.tasks) (hplaced : Placed t (t.keyOf o.taskDir) level m way) :
    (apply t o c).tree.find? (t.keyOf o.workDir ++ way) = some .directory := by
  have hindex : 0 < (side m true).length := List.length_pos_iff.mpr (Detection.inputs_ne_nil h.evaluate m hm)
  obtain ⟨content, hfile⟩ := h.numbered_file hok hm hindex
  rw [hplaced.numberedKey_eq] at hfile
  exact (h.found.rooted hok).1.find?_parent (Tree.fileAt_eq_some_iff.mp hfile)

theorem lists (h : Fresh t o level context definition scanned c) (hok : (apply t o c).result = .ok report)
    (hm : m ∈ c.tasks) (hplaced : Placed t (t.keyOf o.taskDir) level m way) :
    Lists o.marksFile m (Task.filesAt (apply t o c).tree (t.keyOf o.workDir ++ way)) := by
  have hrooted := (h.found.rooted hok).1
  have hdir := h.task_directory hok hm hplaced
  rw [← Task.filesAt_fromRoot]
  refine ⟨Task.filesAt_nodup hrooted _, fun isInput index hindex => ?_, fun path hpath => ?_⟩
  · obtain ⟨content, hfile⟩ := h.numbered_file hok hm hindex
    rw [hplaced.numberedKey_eq] at hfile
    exact (Task.mem_filesAt hrooted hdir).mpr
      ⟨[_], by simp, ⟨content, Tree.fileAt_eq_some_iff.mp hfile⟩, wayText_singleton _⟩
  · obtain ⟨down, -, ⟨content, hfile⟩, rfl⟩ := (Task.mem_filesAt hrooted hdir).mp hpath
    have hnone : t.fileAt (t.keyOf o.workDir ++ way ++ down) = none := by
      rw [List.append_assoc, Tree.fileAt, h.missing hok]
      rfl
    obtain ⟨deed, hdeed, hkey⟩ := (h.complete hok).new _ content hnone (Tree.fileAt_eq_some_iff.mpr hfile)
    obtain ⟨m', hm', hdeed⟩ := List.mem_flatMap.mp hdeed
    obtain ⟨way', -, hplaced', -⟩ := h.found.placed m' hm'
    obtain ⟨name, htarget, hname⟩ := target_cases t h.marksName hdeed
    -- All tasks are equally deep.
    rw [hkey, hplaced'.keyOf_targetDir, List.append_assoc, List.append_assoc] at htarget
    obtain ⟨rfl, rfl⟩ := List.append_inj (List.append_cancel_left htarget) (hplaced.depth.trans hplaced'.depth.symm)
    obtain rfl := h.found.eq_of_targetDir hm hm' (by rw [hplaced.keyOf_targetDir, hplaced'.keyOf_targetDir])
    rwa [wayText_singleton]

theorem directory_iff (h : Fresh t o level context definition scanned c) (hok : (apply t o c).result = .ok report)
    (hlength : way.length = level) : (apply t o c).tree.find? (t.keyOf o.workDir ++ way) = some .directory ↔
      t.find? (t.keyOf o.taskDir ++ way) = some .directory := by
  constructor
  · intro hdir
    obtain hthere | ⟨m, hm, hdown⟩ := (h.complete hok).directories.wanted _ hdir
    · rw [h.missing hok] at hthere
      cases hthere
    · obtain ⟨way', -, hplaced, -⟩ := h.found.placed m hm
      rw [hplaced.keyOf_targetDir, List.prefix_append_right_inj] at hdown
      rw [hdown.eq_of_length (hlength.trans hplaced.depth.symm)]
      exact hplaced.directory
  · intro hdir
    obtain ⟨m, hm, hplaced⟩ := h.exists_placed hlength hdir
    exact h.task_directory hok hm hplaced

theorem look_workDir (h : Fresh t o level context definition scanned c) (hok : (apply t o c).result = .ok report) :
    (apply t o c).tree.look o.workDir = .ok (t.keyOf o.workDir, .directory) := by
  obtain ⟨hrooted, hcurrent⟩ := h.found.rooted hok
  obtain ⟨m, more, hm⟩ := h.exists_task
  obtain ⟨way, -, hplaced, -⟩ := h.found.placed m (hm ▸ List.mem_cons_self)
  have hdir : (apply t o c).tree.find? (t.keyOf o.workDir) = some .directory :=
    hrooted.find?_of_prefix (h.task_directory hok (hm ▸ List.mem_cons_self) hplaced) (List.prefix_append _ _)
  have hkey : (apply t o c).tree.keyOf o.workDir = t.keyOf o.workDir := Tree.keyOf_congr hcurrent _
  rw [← hkey] at hdir ⊢
  refine Tree.look_eq_ok.mpr ⟨Tree.locate_of_prefixes (h.withinLimits_workDir hok) h.noUp fun key hdown => ?_, hdir⟩
  exact hrooted.find?_of_prefix hdir hdown

/-- Every directory lies on the path of a marks file that was written. -/
theorem openable_workDir (h : Fresh t o level context definition scanned c) (hok : (apply t o c).result = .ok report) :
    Task.Openable (apply t o c).tree o.workDir (t.keyOf o.workDir) := by
  intro way hdir
  obtain hthere | ⟨m, hm, hdown⟩ := (h.complete hok).directories.wanted _ hdir
  · rw [h.missing hok] at hthere
    cases hthere
  · obtain ⟨way', -, hplaced, -⟩ := h.found.placed m hm
    rw [hplaced.keyOf_targetDir, List.prefix_append_right_inj] at hdown
    obtain ⟨down, rfl⟩ := hdown
    have hshort := (((h.convertible hok).pathable hok).marks m hm).short
    rw [Options.marksPath, Options.targetDir, hplaced.name, Task.directory_wayText _ hplaced.isWay, ← Task.pathTo_concat,
      List.append_assoc] at hshort
    refine Tree.pathFits_of_pathTo ?_ hshort
    rw [← List.append_assoc]
    exact hplaced.isWay.concat h.marksName

/-- Scanning finds the same tasks in the same order. -/
theorem scan_workDir (h : Fresh t o level context definition scanned c) (hok : (apply t o c).result = .ok report) :
    Task.scan (apply t o c).tree o.workDir level = .ok ((Task.waysAt t (t.keyOf o.taskDir) level).map fun way =>
      ⟨Task.wayText way, Task.filesAt (apply t o c).tree (t.keyOf o.workDir ++ way)⟩) := by
  have hlook := h.look_workDir hok
  have hways : Task.waysAt (apply t o c).tree.fromRoot (t.keyOf o.workDir) level =
      Task.waysAt t (t.keyOf o.taskDir) level :=
    Task.waysAt_congr h.wellFormed (h.found.rooted hok).1 h.base_directory (Tree.look_eq_ok.mp hlook).2
      fun way hlength => h.directory_iff hok hlength
  rw [Task.waysAt_fromRoot] at hways
  obtain ⟨m, more, hm⟩ := h.exists_task
  obtain ⟨way, -, hplaced, -⟩ := h.found.placed m (hm ▸ List.mem_cons_self)
  have hway := (Task.mem_waysAt h.wellFormed h.base_directory).mpr ⟨hplaced.depth, hplaced.directory⟩
  rw [← hways] at hway ⊢
  exact Task.scan_of_ways (h.found.rooted hok).1 hlook (h.openable_workDir hok) (List.ne_nil_of_mem hway)

theorem renumberable (h : Fresh t o level context definition scanned c) (hm : m ∈ c.tasks) :
    Renumberable o.infilesOnly m := by
  obtain ⟨-, task, -, hdetected⟩ := h.found.placed m hm
  exact ⟨Detection.inputs_ne_nil h.evaluate m hm, h.bound m hm, hdetected.paired,
    fun hinfiles => Detection.outputs_eq_nil h.evaluate hinfiles m hm⟩

/-- By their numbers, the tests are detected again wherever they shall go. -/
theorem evaluate_workDir (h : Fresh t o level context definition scanned c) (hok : (apply t o c).result = .ok report)
    {again : Template.Context} {workDir : String} {d : Definition} (hin : d.input = groupTemplate true)
    (hout : d.output = groupTemplate false) (hne : workDir ≠ "") (hvacant : t'.exists? workDir = false) :
    Detection.evaluate t' again ⟨o.infilesOnly, workDir⟩ d
      ((Task.waysAt t (t.keyOf o.taskDir) level).map fun way =>
        ⟨Task.wayText way, Task.filesAt (apply t o c).tree (t.keyOf o.workDir ++ way)⟩) =
      .ok ⟨d.name, c.tasks.map renumbered⟩ := by
  refine Detection.evaluate_numbered hin hout (fun isInput p hp => h.marksApart.match?_none hp) ?_ fun task htask => ?_
  · have hall := forall₂_and_right.mpr ⟨List.forall₂_map_left_iff.mp h.detected, fun m (hm : m ∈ c.tasks) => hm⟩
    refine List.forall₂_map_left_iff.mpr (((List.forall₂_and_left _ _).mpr ⟨fun way hway => hway, hall⟩).imp ?_)
    rintro way m ⟨hway, hdetected, hm⟩
    obtain ⟨-, hdir⟩ := (Task.mem_waysAt h.wellFormed h.base_directory).mp hway
    obtain ⟨way', -, hplaced, -⟩ := h.found.placed m hm
    have hname := hdetected.name.symm.trans hplaced.name
    obtain rfl := wayText_injective (Task.isWay_of_find? h.wellFormed hdir) hplaced.isWay hname
    exact ⟨h.lists hok hm hplaced, hplaced.name, h.renumberable hm⟩
  · obtain ⟨way, hway, rfl⟩ := List.mem_map.mp htask
    have hisWay := Task.isWay_of_find? h.wellFormed ((Task.mem_waysAt h.wellFormed h.base_directory).mp hway).2
    intro isInput index
    refine Bool.eq_false_iff.mpr fun hexists => ?_
    rw [Tree.exists?_of_directory_name hisWay (isName_numbered index isInput) hne hexists] at hvacant
    cases hvacant

end Fresh

-- ---------------------------------------------------------------------------
-- Converting what was read
-- ---------------------------------------------------------------------------

structure Onward (t : Tree) (o next : Options) : Prop where
  taskDir : next.taskDir = o.workDir
  infilesOnly : next.infilesOnly = o.infilesOnly
  nonempty : next.workDir ≠ ""
  vacant : t.exists? next.workDir = false
  marksName : IsName next.marksFile
  marksApart : Apart next.marksFile

def Repeats (t : Tree) (o next : Options) (tasks : List TaskMatch) (t' : Tree) : Prop :=
  ∀ m ∈ tasks, ∀ isInput index, index < (side m isInput).length → ∃ content,
    t.fileAt (numberedKey t o m.task index isInput) = some content ∧
      t'.fileAt (numberedKey t next m.task index isInput) = some content

theorem keyOf_numbered_congr {start : Tree} {base : String} (hway : IsWay way) (h : start.keyOf base = t.keyOf base)
    {index : Nat} {isInput : Bool} :
    start.keyOf (join (Task.directory base (Task.wayText way)) (Detection.numbered index (extension isInput))) =
      t.keyOf (join (Task.directory base (Task.wayText way)) (Detection.numbered index (extension isInput))) := by
  have hname := isName_numbered index isInput
  rw [Tree.keyOf_join_name _ _ hname, Tree.keyOf_join_name _ _ hname, Tree.keyOf_directory _ _ hway,
    Tree.keyOf_directory _ _ hway, h]

namespace Fresh

/-- What was read back is detected for the next conversion, wherever relative paths start. -/
theorem detected_onward (h : Fresh t o level context definition scanned c) (hok : (apply t o c).result = .ok report)
    {next : Options} (hnext : Onward (apply t o c).tree o next) {start : Tree}
    (hstead : Stead (apply t o c).tree next start) (name : String) :
    ∃ rescanned, Task.scan start next.taskDir level = .ok rescanned ∧
      Detection.evaluate start .default ⟨next.infilesOnly, next.workDir⟩
        ⟨name, groupTemplate true, groupTemplate false, .none⟩ rescanned = .ok ⟨name, c.tasks.map renumbered⟩ := by
  refine ⟨_, (hstead.scan level).trans
    ((congrArg (Task.scan _ · level) hnext.taskDir).trans (h.scan_workDir hok)), ?_⟩
  rw [hnext.infilesOnly]
  exact h.evaluate_workDir hok rfl rfl hnext.nonempty (hstead.exists?_workDir.trans hnext.vacant)

theorem convertible_onward (h : Fresh t o level context definition scanned c)
    (hok : (apply t o c).result = .ok report) {next : Options} (hnext : Onward (apply t o c).tree o next)
    (name : String) (hcurrent : (apply t o c).tree.find? (apply t o c).tree.current = some .directory)
    (hup : .up ∉ components next.workDir)
    (hunblocked : ∀ m ∈ c.tasks, (apply t o c).tree.Unblocked ((apply t o c).tree.keyOf (next.targetDir m.task))) :
    Convertible (apply t o c).tree next level .default ⟨name, groupTemplate true, groupTemplate false, .none⟩
      ⟨name, c.tasks.map renumbered⟩ := by
  have hwellFormed := (h.found.rooted hok).1.of_fromRoot hcurrent
  refine ⟨hwellFormed, h.detected_onward hok hnext (.self hwellFormed next) name,
    check_eq_ok.mpr ⟨fun hexists => ?_, ?_⟩, hup, hnext.marksName, ?_, List.forall_mem_map.mpr hunblocked⟩
  · rw [hnext.vacant] at hexists
    cases hexists
  · refine List.forall_mem_map.mpr fun m hm => Bool.eq_false_iff.mpr fun hexists => ?_
    obtain ⟨way, hway, hname⟩ := h.exists_way hm
    rw [Options.marksPath, Options.targetDir, show (renumbered m).task = _ from hname] at hexists
    have hvacant := hnext.vacant
    rw [Tree.exists?_of_directory_name hway hnext.marksName hnext.nonempty hexists] at hvacant
    cases hvacant
  · refine List.forall_mem_map.mpr fun m hm index isInput hindex => hnext.marksApart.ne_numbered ?_
    rw [length_inputs_renumbered] at hindex
    exact Nat.lt_of_le_of_lt hindex (h.bound m hm)

/-- A conversion of what was read back puts the same files under the same numbers. -/
theorem repeats (h : Fresh t o level context definition scanned c) (hok : (apply t o c).result = .ok report)
    {next : Options} (hnext : Onward (apply t o c).tree o next) {again : Candidate}
    (htasks : again.tasks = c.tasks.map renumbered) {report' : Report}
    (hok' : (apply (apply t o c).tree next again).result = .ok report') :
    Repeats (apply t o c).tree o next c.tasks (apply (apply t o c).tree next again).tree := by
  have hways : ∀ m ∈ again.tasks, ∃ way, IsWay way ∧ m.task = Task.wayText way := by
    rw [htasks, List.forall_mem_map]
    intro m hm
    obtain ⟨way, hway⟩ := h.exists_way hm
    exact ⟨way, hway⟩
  have hroot := hnext.taskDir ▸ h.look_workDir hok
  intro m hm isInput index hindex
  have hm' : renumbered m ∈ again.tasks := htasks ▸ List.mem_map_of_mem hm
  obtain ⟨start, after, hstead, hfree, hrun, hfiles⟩ :=
    exists_run (h.found.rooted hok).1 hroot hnext.nonempty hm' hways hok'
  obtain ⟨rescanned, hscan, hevaluate⟩ := h.detected_onward hok hnext hstead again.name
  rw [← htasks] at hevaluate
  have hfound := found_of_evaluate hstead.wellFormed hscan hevaluate
  obtain ⟨hlt, hboth⟩ := (h.renumberable hm).of_lt_side hindex
  rw [← hnext.infilesOnly] at hboth
  have hapart : next.marksFile ≠ Detection.numbered index (extension isInput) :=
    hnext.marksApart.ne_numbered (Nat.lt_of_le_of_lt hlt (h.bound m hm))
  have hspared := hfound.spared hnext.marksName hrun hfree hm' (Detection.getElem?_side_renumbered hindex) hboth
  obtain ⟨content, hsource, hkept⟩ := hspared.kept hapart
  -- Tests were read, and no marks.
  have hread : sourceKey start next m.task (numberedRecord isInput index) =
      start.keyOf (Task.directory next.taskDir m.task) ++ [Detection.numbered index (extension isInput)] :=
    Tree.keyOf_join_name start _ (isName_numbered index isInput)
  have hthere := hkept.resolve_right fun ⟨_, m', _, hmarks, _⟩ => by
    rw [keyOf_marksPath start hnext.marksName] at hmarks
    exact hapart (List.singleton_inj.mp (List.append_inj' (hmarks.trans hread) rfl).2)
  obtain ⟨way, hway, hname⟩ := h.exists_way hm
  have hfrom : sourceKey start next m.task (numberedRecord isInput index) =
      numberedKey (apply t o c).tree o m.task index isInput := by
    rw [numberedKey, Options.targetDir, ← hnext.taskDir, hname]
    exact keyOf_numbered_congr hway hstead.keyOf_taskDir
  have hto : numberedKey start next m.task index isInput =
      numberedKey (apply t o c).tree next m.task index isInput := by
    rw [numberedKey, numberedKey, Options.targetDir, hname]
    exact keyOf_numbered_congr hway hstead.keyOf_workDir
  refine ⟨content, ?_, ?_⟩
  · rw [← hfrom, Tree.fileAt, ← hstead.find?]
    exact hsource
  · rw [hfiles ⟨_, hrun.underway_done hfound.underway⟩, ← hto]
    exact hthere

end Fresh

-- ---------------------------------------------------------------------------
-- Reading back
-- ---------------------------------------------------------------------------

def reread (d : Definition) (c : Candidate) : Candidate := ⟨d.name, c.tasks.map renumbered⟩

/-- A tree from which the converted tests are read back: the same tasks in the same order, with the tests in the
order of their numbers. Another conversion gives the same files once more. -/
structure ReadBack (o : Options) (level : Nat) (scanned : List Task) (c : Candidate) (d : Definition) (t : Tree)
    (rescanned : List Task) : Prop where
  scan : Task.scan t o.workDir level = .ok rescanned
  names : rescanned.map Task.name = scanned.map Task.name
  evaluate : ∀ context workDir, workDir ≠ "" → t.exists? workDir = false →
    Detection.evaluate t context ⟨o.infilesOnly, workDir⟩ d rescanned = .ok (reread d c)
  repeats : ∀ next report, Onward t o next → (apply t next (reread d c)).result = .ok report →
    Repeats t o next c.tasks (apply t next (reread d c)).tree
  /-- Only for its paths, and what is in their way, can the next conversion fail. -/
  converts : ∀ next, Onward t o next → t.find? t.current = some .directory → .up ∉ components next.workDir →
    (∀ m ∈ c.tasks, t.Unblocked (t.keyOf (next.targetDir m.task))) → Pathable t next level (reread d c) →
    ∃ report, (apply t next (reread d c)).result = .ok report

/-- Tests that were converted into a new directory are read back from there. -/
theorem converted_read_back (h : Outbound t o level context definition scanned c) (hne : o.workDir ≠ "")
    (hok : (apply t o c).result = .ok report) {d : Definition} (hin : d.input = groupTemplate true)
    (hout : d.output = groupTemplate false) :
    ∃ rescanned, ReadBack o level scanned c d (apply t o c).tree rescanned := by
  have hfresh : Fresh t o level context definition scanned c := ⟨h, hne⟩
  refine ⟨_, hfresh.scan_workDir hok, ?names, fun _ _ => hfresh.evaluate_workDir hok hin hout,
    fun next _ hnext hok' => hfresh.repeats hok hnext rfl hok',
    fun next hnext hcurrent hup hunblocked hpaths => ?converts⟩
  case names =>
    obtain ⟨base, hlook, -, rfl⟩ := Task.scan_eq_ok h.wellFormed.fromRoot h.scan
    obtain rfl := Tree.locate_eq_ok (Tree.look_eq_ok.mp hlook).1
    rw [List.map_map, List.map_map]
    rfl
  case converts =>
    exact ((hfresh.convertible_onward hok hnext d.name hcurrent hup hunblocked).converts hpaths).1

-- ---------------------------------------------------------------------------
-- Two tasks
-- ---------------------------------------------------------------------------

theorem apart_of_head {ch : Char} {s : List Char} (hname : name.toList = ch :: s) (hch : ch.isDigit = false) :
    Apart name := by
  intro isInput p hp
  refine Option.eq_none_iff_forall_ne_some.mpr fun r hr => ?_
  obtain ⟨-, ⟨digits, rest, htext, ⟨hdigits, hall, -⟩, -⟩, -⟩ := (Detection.groupTemplate_match? hp).mp hr
  obtain ⟨d, more, rfl⟩ := List.exists_cons_of_ne_nil hdigits
  rw [hname] at htext
  obtain rfl := (List.cons.inj htext).1
  rw [hall ch List.mem_cons_self] at hch
  cases hch

theorem isName_marks : IsName "marks.txt" := by decide

theorem apart_marks : Apart "marks.txt" := @apart_of_head _ 'm' "arks.txt".toList rfl rfl

theorem twoTasks_outbound : Outbound twoTasks (convertTasks .copy "tasks" "w") 1 .default groupScheme twoTasksListed
    twoTasksTests := by
  refine ⟨twoTasks_wellFormed, twoTasks_scan, evaluate_twoTasks, (by decide), (by decide), isName_marks, apart_marks, ?_⟩
  decide

theorem twoTasks_free {t' : Tree} (h : Complete twoTasks (convertTasks .copy "tasks" "w") twoTasksTests t') {key : Key}
    (hkey : key ∈ [["v"], ["v", "a"], ["v", "b"]]) : t'.find? key = none := by
  have hfree : ∀ key ∈ [["v"], ["v", "a"], ["v", "b"]], (twoTasks.find? key).isNone ∧
      (∀ deed ∈ script (convertTasks .copy "tasks" "w") twoTasksTests.tasks,
        twoTasks.keyOf (deed.target (convertTasks .copy "tasks" "w")) ≠ key) ∧
      ∀ m ∈ twoTasksTests.tasks, ¬ key <+: twoTasks.keyOf ((convertTasks .copy "tasks" "w").targetDir m.task) := by
    decide +kernel
  obtain ⟨hnone, hfiles, hdirectories⟩ := hfree key hkey
  exact h.vacant (Option.isNone_iff_eq_none.mp hnone) hfiles hdirectories

theorem twoTasks_onward {t' : Tree} (h : Complete twoTasks (convertTasks .copy "tasks" "w") twoTasksTests t')
    (hcurrent : t'.current = []) : Onward t' (convertTasks .copy "tasks" "w") (convertTasks .copy "w" "v") ∧
      ∀ m ∈ twoTasksTests.tasks, t'.Unblocked (t'.keyOf ((convertTasks .copy "w" "v").targetDir m.task)) := by
  have hkey (path : String) : t'.keyOf path = twoTasks.keyOf path := Tree.keyOf_congr hcurrent path
  refine ⟨⟨rfl, rfl, by decide, Tree.not_exists_of_find? ?_, isName_marks, apart_marks⟩, fun m hm k hk content hfile => ?_⟩
  · rw [hkey]
    exact twoTasks_free h List.mem_cons_self
  · rw [hkey] at hk
    have habove : ∀ m ∈ twoTasksTests.tasks, ∀ k ∈ (twoTasks.keyOf ((convertTasks .copy "w" "v").targetDir m.task)).inits,
        k = [] ∨ k ∈ [["v"], ["v", "a"], ["v", "b"]] := by decide +kernel
    rcases habove m hm k ((List.mem_inits _ _).mpr hk) with rfl | hfree
    · cases hfile
    · rw [twoTasks_free h hfree] at hfile
      cases hfile

/-- The tests of two tasks go from `tasks` to `w` and from there to `v`; in `w` the tenth is listed before the second. -/
theorem converted_read_back_twoTasks :
    (Outbound twoTasks (convertTasks .copy "tasks" "w") 1 .default groupScheme twoTasksListed twoTasksTests ∧
      (convertTasks .copy "tasks" "w").workDir ≠ "" ∧
      (apply twoTasks (convertTasks .copy "tasks" "w") twoTasksTests).result.isOk) ∧
      ∃ rescanned after, after = (apply twoTasks (convertTasks .copy "tasks" "w") twoTasksTests).tree ∧
        Task.scan after "w" 1 = .ok rescanned ∧ rescanned.map Task.name = ["a", "b"] ∧
        Detection.evaluate after .default ⟨false, "v"⟩ groupScheme rescanned = .ok twoTasksTests ∧
        after.fileAt ["w", "a", "10.out"] = some "a9\n".toUTF8 ∧
        (apply after (convertTasks .copy "w" "v") twoTasksTests).tree.fileAt ["v", "a", "10.out"] =
          some "a9\n".toUTF8 := by
  obtain ⟨⟨report, hok⟩, -, hcomplete⟩ := converts_of_pathable (twoTasks_accepted .copy) (twoTasks_pathable .copy)
  have hfound : Found twoTasks (convertTasks .copy "tasks" "w") 1 twoTasksTests :=
    found_of_evaluate twoTasks_wellFormed twoTasks_scan evaluate_twoTasks
  have hcurrent := (hfound.rooted hok).2
  obtain ⟨rescanned, hread⟩ := converted_read_back twoTasks_outbound (by decide) hok (d := groupScheme) rfl rfl
  have hisOk := isOk_iff.mpr ⟨report, hok⟩
  refine ⟨⟨twoTasks_outbound, by decide, hisOk⟩, rescanned, _, rfl, hread.scan, hread.names, ?_⟩
  generalize (apply twoTasks (convertTasks .copy "tasks" "w") twoTasksTests).tree = after at hcomplete hcurrent hread ⊢
  obtain ⟨honward, hunblocked⟩ := twoTasks_onward hcomplete hcurrent
  have hsame : reread groupScheme twoTasksTests = twoTasksTests := by decide +kernel
  have hpaths : Pathable after (convertTasks .copy "w" "v") 1 twoTasksTests := by
    refine ⟨fun h => (nomatch h), ?_, ?_⟩
    all_goals decide +kernel
  have hstart : after.find? after.current = some .directory := by
    rw [hcurrent]
    rfl
  have hevaluate := hread.evaluate .default "v" (by decide) honward.vacant
  have hconverts := hread.converts _ honward hstart (by decide) hunblocked
  have hrepeats (report : Report) := hread.repeats _ report honward
  rw [hsame] at hevaluate hconverts
  simp only [hsame] at hrepeats
  obtain ⟨report', hok'⟩ := hconverts hpaths
  obtain ⟨content, hthere, hagain⟩ := hrepeats report' hok' (detectedTask "a" 10) List.mem_cons_self false 9 (by decide)
  have hfrom : numberedKey after (convertTasks .copy "tasks" "w") "a" 9 false = ["w", "a", "10.out"] :=
    (Tree.keyOf_congr (t := twoTasks) hcurrent _).trans (by decide)
  have hto : numberedKey after (convertTasks .copy "w" "v") "a" 9 false = ["v", "a", "10.out"] :=
    (Tree.keyOf_congr (t := twoTasks) hcurrent _).trans (by decide)
  obtain ⟨source, hsource, htarget⟩ := hcomplete.outputs rfl (detectedTask "a" 10) List.mem_cons_self 9 _ rfl
  cases hsource
  have hconverted : after.fileAt ["w", "a", "10.out"] = some "a9\n".toUTF8 := htarget
  obtain rfl := Option.some.inj (hconverted.symm.trans ((congrArg after.fileAt hfrom).symm.trans hthere))
  exact ⟨hevaluate, hconverted, hto ▸ hagain⟩

-- ---------------------------------------------------------------------------
-- A single test
-- ---------------------------------------------------------------------------

def copyFrom (taskDir workDir : String) : Options := ⟨taskDir, workDir, .copy, false, true, "marks.txt"⟩

theorem oneInput_outbound {taskDir workDir : String} (ht : t.WellFormed)
    (hscan : Task.scan t taskDir 0 = .ok [⟨"", ["1.in"]⟩]) (hup : .up ∉ components workDir)
    (hvacant : t.exists? workDir = false) (htarget : t.exists? (join workDir "1.in") = false) :
    Outbound t (copyFrom taskDir workDir) 0 .default groupScheme [⟨"", ["1.in"]⟩] oneInput := by
  refine ⟨ht, hscan, oneInput_detected htarget, hup, hvacant, isName_marks, apart_marks, fun m hm => ?_⟩
  rw [List.mem_singleton.mp hm]
  decide

/-- A test is not detected where its file would be put over another. -/
theorem oneInput_rejected {workDir : String} {tasks : List Task} {files : List String}
    (h : t.exists? (join workDir "1.in")) (htask : ⟨"", files⟩ ∈ tasks) :
    ∃ r, Detection.evaluate t .default ⟨true, workDir⟩ groupScheme tasks = .error r :=
  Detection.evaluate_error_of_exists htask h

def oneTestHere : Tree := { oneTest with current := ["tasks"] }

/-- The empty path does not exist. So the tests that go there are not found there, and where they are read back for it,
a file can be in the way. -/
theorem converted_not_read_back :
    (Outbound oneTest (copyFrom "tasks" "") 0 .default groupScheme [⟨"", ["1.in"]⟩] oneInput ∧
      (apply oneTest (copyFrom "tasks" "") oneInput).result.isOk ∧
      ∀ rescanned, Task.scan (apply oneTest (copyFrom "tasks" "") oneInput).tree "" 0 ≠ .ok rescanned) ∧
    (Outbound oneTestHere (copyFrom "." "w") 0 .default groupScheme [⟨"", ["1.in"]⟩] oneInput ∧
      (apply oneTestHere (copyFrom "." "w") oneInput).result.isOk ∧
      (apply oneTestHere (copyFrom "." "w") oneInput).tree.exists? "" = false ∧
      ∃ rescanned, Task.scan (apply oneTestHere (copyFrom "." "w") oneInput).tree "w" 0 = .ok rescanned ∧
        ∃ r, Detection.evaluate (apply oneTestHere (copyFrom "." "w") oneInput).tree .default ⟨true, ""⟩ groupScheme
          rescanned = .error r) := by
  have hhere : oneTestHere.WellFormed := @Tree.WellFormed.of_fromRoot oneTestHere oneTest_wellFormed.fromRoot rfl
  have houtbound : Outbound oneTestHere (copyFrom "." "w") 0 .default groupScheme [⟨"", ["1.in"]⟩] oneInput :=
    oneInput_outbound hhere (by decide +kernel) (by decide) (by decide +kernel) (by decide +kernel)
  have hisOk : (apply oneTestHere (copyFrom "." "w") oneInput).result.isOk := by decide +kernel
  obtain ⟨report, hok⟩ := isOk_iff.mp hisOk
  have hexists : (apply oneTestHere (copyFrom "." "w") oneInput).tree.exists? (join "" "1.in") := by decide +kernel
  have hroot : [] ∈ Task.waysAt oneTestHere (oneTestHere.keyOf ".") 0 := by decide +kernel
  refine ⟨⟨?_, by decide +kernel, ?_⟩, houtbound, hisOk, by decide +kernel, _,
    Fresh.scan_workDir ⟨houtbound, by decide⟩ hok, oneInput_rejected hexists (List.mem_map_of_mem hroot)⟩
  · exact oneInput_outbound oneTest_wellFormed oneTest_scan (by decide) (by decide +kernel) (by decide +kernel)
  · intro rescanned hscan
    have hfails : Task.scan (apply oneTest (copyFrom "tasks" "") oneInput).tree "" 0 = .error (.taskDirNotFound "") := by
      decide +kernel
    rw [hfails] at hscan
    cases hscan

end ContestTests.Conversion
