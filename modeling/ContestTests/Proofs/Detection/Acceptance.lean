import ContestTests.Detection
import ContestTests.Proofs.Record.Sorting
import ContestTests.Proofs.Success
import Mathlib.Data.List.Nodup

/-!
# When a definition is accepted

`Fits` says of one task what a definition needs, without sorting and without an order of checks:
files are matched or not, names agree, the tests of inputs and outputs are the same bag, and no
numbered file is in the way. A definition is accepted exactly if its templates compile and every task
fits; the candidate then holds the matched files of every task, stably sorted.
-/

namespace ContestTests

def Pattern.records (p : Pattern) (paths : List String) : List Record := paths.filterMap p.match?

namespace Detection

variable {t : Tree} {context : Template.Context} {options : Options} {definition : Definition}
  {input output : Pattern} {records inputs outputs : List Record} {m : TaskMatch}

def OneName (records : List Record) : Prop :=
  ∀ a ∈ records, ∀ b ∈ records, a.taskName = b.taskName

/-- None of so many numbered files exists. -/
def Vacant (t : Tree) (directory extension : String) (count : Nat) : Prop :=
  ∀ k, 1 ≤ k → k ≤ count →
    ¬t.exists? (Path.join directory (Text.decimal k ++ "." ++ extension))

def ListedOnce (p : Pattern) (paths : List String) : Prop :=
  ∀ path, (p.match? path).isSome → paths.count path ≤ 1

structure Paired (t : Tree) (workDir : String) (input output : Pattern) (task : Task) : Prop where
  apart : ∀ path ∈ task.files, ¬((input.match? path).isSome ∧ (output.match? path).isSome)
  once : ListedOnce output task.files
  oneName : OneName (output.records task.files)
  sameName : ∀ a ∈ input.records task.files, ∀ b ∈ output.records task.files,
    a.taskName ≠ "" → b.taskName ≠ "" → a.taskName = b.taskName
  sameTests : ((input.records task.files).map Record.key).Perm
    ((output.records task.files).map Record.key)
  vacant : Vacant t (Task.directory workDir task.name) "out" (output.records task.files).length

structure Fits (t : Tree) (options : Options) (input output : Pattern) (task : Task) : Prop where
  hasInput : ∃ path ∈ task.files, (input.match? path).isSome
  once : ListedOnce input task.files
  oneName : OneName (input.records task.files)
  vacant : Vacant t (Task.directory options.workDir task.name) "in" (input.records task.files).length
  paired : options.infilesOnly = false → Paired t options.workDir input output task

def outputRecords (options : Options) (output : Pattern) (paths : List String) : List Record :=
  if options.infilesOnly then [] else output.records paths

structure Holds (options : Options) (input output : Pattern) (task : Task) (m : TaskMatch) : Prop where
  name : m.task = task.name
  inputs : Record.StablySorted (input.records task.files) m.inputs
  outputs : Record.StablySorted (outputRecords options output task.files) m.outputs

-- ---------------------------------------------------------------------------
-- Records of a listing
-- ---------------------------------------------------------------------------

theorem match?_path {p : Pattern} (h : p.match? path = some r) : r.path = path := by
  simp only [Pattern.match?, bind, Option.bind_eq_some_iff] at h
  obtain ⟨_, -, _, -, _, -, h⟩ := h
  cases h
  rfl

theorem records_cons (p : Pattern) (path : String) (paths : List String) :
    p.records (path :: paths) =
      match p.match? path with
      | none => p.records paths
      | some r => r :: p.records paths := by
  rw [Pattern.records, List.filterMap_cons]
  cases p.match? path <;> rfl

theorem map_path_records (p : Pattern) (paths : List String) :
    (p.records paths).map Record.path = paths.filter fun path => (p.match? path).isSome := by
  induction paths with
  | nil => rfl
  | cons path paths ih =>
    rw [records_cons]
    cases h : p.match? path with
    | none => simp [h, ih]
    | some r => simp [h, ih, match?_path h]

theorem nodup_records_iff {p : Pattern} :
    ((p.records paths).map Record.path).Nodup ↔ ListedOnce p paths := by
  rw [map_path_records, List.nodup_iff_count_le_one]
  constructor
  · intro h path hm
    simpa [List.count_filter, hm] using h path
  · intro h path
    by_cases hm : (p.match? path).isSome
    · rw [List.count_filter (by simpa using hm)]
      exact h path hm
    · have hnone : path ∉ paths.filter fun path => (p.match? path).isSome :=
        fun hmem => hm (List.mem_filter.mp hmem).2
      simp [List.count_eq_zero_of_not_mem hnone]

theorem records_ne_nil_iff {p : Pattern} :
    p.records paths ≠ [] ↔ ∃ path ∈ paths, (p.match? path).isSome := by
  rw [Pattern.records, ne_eq, List.filterMap_eq_nil_iff]
  simp [Option.isSome_iff_ne_none]

theorem disjoint_records_iff :
    ((input.records paths).map Record.path).Disjoint ((output.records paths).map Record.path) ↔
      ∀ path ∈ paths, ¬((input.match? path).isSome ∧ (output.match? path).isSome) := by
  rw [map_path_records, map_path_records]
  constructor
  · intro h path hp hb
    exact h (List.mem_filter.mpr ⟨hp, hb.1⟩) (List.mem_filter.mpr ⟨hp, hb.2⟩)
  · intro h path hi ho
    rw [List.mem_filter] at hi ho
    exact h path hi.1 ⟨hi.2, ho.2⟩

-- ---------------------------------------------------------------------------
-- Single checks
-- ---------------------------------------------------------------------------

theorem classify_eq_ok_iff :
    classify input output infilesOnly label paths = .ok (inputs, outputs) ↔
      (infilesOnly = false →
        ∀ path ∈ paths, ¬((input.match? path).isSome ∧ (output.match? path).isSome)) ∧
      input.records paths = inputs ∧
      (if infilesOnly then [] else output.records paths) = outputs := by
  induction paths generalizing inputs outputs with
  | nil => cases infilesOnly <;> simp [classify, Pattern.records]
  | cons path paths ih =>
    rw [classify, records_cons, records_cons]
    cases infilesOnly with
    | true =>
      simp only [if_true]
      cases input.match? path with
      | none => simpa using ih
      | some i => simp [map_eq_ok, ih, and_comm]
    | false =>
      simp only [Bool.false_eq_true, if_false, List.forall_mem_cons]
      cases hi : input.match? path <;> cases ho : output.match? path
      · simpa using ih
      · simp [map_eq_ok, ih, and_assoc]
      · simp [map_eq_ok, ih, and_assoc]
      · simp

theorem checkTargets_eq_ok_iff :
    checkTargets t label directory extension index seen records = .ok seen' ↔
      (records.map Record.path).Nodup ∧ (records.map Record.path).Disjoint seen ∧
      (∀ k, index < k → k ≤ index + records.length →
        ¬t.exists? (Path.join directory (Text.decimal k ++ "." ++ extension))) ∧
      (records.map Record.path).reverse ++ seen = seen' := by
  induction records generalizing index seen with
  | nil =>
    have h : ∀ k, index < k → ¬k ≤ index := fun k hk => Nat.not_le_of_lt hk
    simp +contextual [checkTargets, h]
  | cons r records ih =>
    rw [checkTargets]
    by_cases hseen : r.path ∈ seen
    · simp [hseen]
    by_cases htarget : t.exists? (Path.join directory (numbered index extension))
    · simp only [hseen, htarget, if_true, if_false, reduceCtorEq, false_iff]
      rintro ⟨-, -, hvacant, -⟩
      exact hvacant (index + 1) (Nat.lt_succ_self index) (by simp) htarget
    · simp only [hseen, htarget, if_false, Bool.false_eq_true, ih]
      have hvacant : (∀ k, index < k → k ≤ index + (records.length + 1) →
            ¬t.exists? (Path.join directory (Text.decimal k ++ "." ++ extension))) ↔
          ∀ k, index + 1 < k → k ≤ index + 1 + records.length →
            ¬t.exists? (Path.join directory (Text.decimal k ++ "." ++ extension)) := by
        constructor
        · intro h k hk hk'
          exact h k (by omega) (by omega)
        · intro h k hk hk'
          obtain rfl | hk := (show k = index + 1 ∨ index + 1 < k by omega)
          · exact htarget
          · exact h k hk (by omega)
      simp only [List.map_cons, List.nodup_cons, List.disjoint_cons_left, List.disjoint_cons_right,
        hseen, not_false_eq_true, true_and, List.length_cons, hvacant, List.reverse_cons,
        List.append_assoc, List.singleton_append]
      constructor
      · rintro ⟨hn, ⟨hr, hd⟩, hv, hs⟩
        exact ⟨⟨hr, hn⟩, hd, hv, hs⟩
      · rintro ⟨⟨hr, hn⟩, hd, hv, hs⟩
        exact ⟨hn, ⟨hr, hd⟩, hv, hs⟩

theorem vacant_iff : Vacant t directory extension n ↔
    ∀ k, 0 < k → k ≤ 0 + n →
      ¬t.exists? (Path.join directory (Text.decimal k ++ "." ++ extension)) := by
  rw [Nat.zero_add]
  exact Iff.rfl

theorem checkFileSet_eq_ok_iff :
    checkFileSet t workDir m = .ok () ↔
      ((m.inputs ++ m.outputs).map Record.path).Nodup ∧
      Vacant t (Task.directory workDir m.task) "in" m.inputs.length ∧
      Vacant t (Task.directory workDir m.task) "out" m.outputs.length := by
  simp only [checkFileSet, bind_eq_ok, checkTargets_eq_ok_iff, ← vacant_iff, List.map_append,
    List.nodup_append']
  constructor
  · rintro ⟨seen, ⟨hin, -, hvin, rfl⟩, _, ⟨hout, hd, hvout, -⟩, -⟩
    exact ⟨⟨hin, hout, fun path hi ho => hd ho (by simpa using hi)⟩, hvin, hvout⟩
  · rintro ⟨⟨hin, hout, hd⟩, hvin, hvout⟩
    refine ⟨_, ⟨hin, by simp, hvin, rfl⟩, _, ⟨hout, ?_, hvout, rfl⟩, trivial⟩
    exact fun path ho hi => hd (by simpa using hi) ho

theorem checkNames_eq_ok_iff : checkNames label records = .ok () ↔ OneName records := by
  cases records with
  | nil => simp [checkNames, OneName]
  | cons first rest =>
    rw [checkNames]
    constructor
    · intro h
      cases hf : rest.find? (·.taskName != first.taskName) with
      | some other => simp [hf] at h
      | none =>
        have hfirst : ∀ r ∈ first :: rest, r.taskName = first.taskName := by
          simpa using hf
        intro a ha b hb
        exact (hfirst a ha).trans (hfirst b hb).symm
    · intro h
      have hf : rest.find? (·.taskName != first.taskName) = none := by
        simp only [List.find?_eq_none, bne_iff_ne, ne_eq, not_not]
        exact fun r hr => h r (List.mem_cons_of_mem _ hr) first List.mem_cons_self
      rw [hf]

theorem checkSameName_eq_ok_iff (hi : OneName inputs) (ho : OneName outputs) :
    checkSameName label inputs outputs = .ok () ↔
      ∀ a ∈ inputs, ∀ b ∈ outputs, a.taskName ≠ "" → b.taskName ≠ "" → a.taskName = b.taskName := by
  cases inputs with
  | nil => simp [checkSameName]
  | cons i inputs =>
    cases outputs with
    | nil => simp [checkSameName]
    | cons o outputs =>
      -- With one name on each side the first records speak for all.
      have hall : (∀ a ∈ i :: inputs, ∀ b ∈ o :: outputs,
            a.taskName ≠ "" → b.taskName ≠ "" → a.taskName = b.taskName) ↔
          (i.taskName ≠ "" → o.taskName ≠ "" → i.taskName = o.taskName) := by
        constructor
        · intro h
          exact h i List.mem_cons_self o List.mem_cons_self
        · intro h a ha b hb
          rw [hi a ha i List.mem_cons_self, ho b hb o List.mem_cons_self]
          exact h
      rw [hall, checkSameName]
      by_cases hin : i.taskName = "" <;> by_cases hon : o.taskName = "" <;>
        by_cases hne : i.taskName = o.taskName <;> simp [hin, hon, hne]

theorem checkTests_eq_ok_iff (h : inputs.length = outputs.length) :
    checkTests label inputs outputs = .ok () ↔
      inputs.map Record.key = outputs.map Record.key := by
  induction inputs generalizing outputs with
  | nil =>
    cases outputs with
    | nil => simp [checkTests]
    | cons o outputs => simp at h
  | cons i inputs ih =>
    cases outputs with
    | nil => simp at h
    | cons o outputs =>
      rw [checkTests, List.map_cons, List.map_cons, List.cons.injEq, ← ih (by simpa using h)]
      by_cases hg : i.group = o.group <;> by_cases ht : i.test = o.test <;>
        simp [Record.key, hg, ht]

theorem checkPairs_eq_ok_iff :
    checkPairs m = .ok () ↔
      OneName m.inputs ∧ OneName m.outputs ∧
      (∀ a ∈ m.inputs, ∀ b ∈ m.outputs,
        a.taskName ≠ "" → b.taskName ≠ "" → a.taskName = b.taskName) ∧
      m.inputs.map Record.key = m.outputs.map Record.key := by
  rw [checkPairs]
  by_cases hl : m.inputs.length = m.outputs.length
  · simp only [hl, ne_eq, not_true_eq_false, if_false, bind_eq_ok, checkNames_eq_ok_iff,
      checkTests_eq_ok_iff hl, Unique.exists_iff, PUnit.default_eq_unit]
    constructor
    · rintro ⟨hi, ho, hs, ht⟩
      exact ⟨hi, ho, (checkSameName_eq_ok_iff hi ho).mp hs, ht⟩
    · rintro ⟨hi, ho, hs, ht⟩
      exact ⟨hi, ho, (checkSameName_eq_ok_iff hi ho).mpr hs, ht⟩
  · simp only [hl, ne_eq, not_false_eq_true, if_true, reduceCtorEq, false_iff]
    rintro ⟨-, -, -, ht⟩
    exact hl (by simpa using congrArg List.length ht)

theorem checkAll_eq_ok_iff {check : TaskMatch → Except Rejection Unit} {ms : List TaskMatch} :
    checkAll check ms = .ok () ↔ ∀ m ∈ ms, check m = .ok () := by
  induction ms with
  | nil => simp [checkAll]
  | cons m ms ih => simp [checkAll, bind_eq_ok, Unique.exists_iff, ih]

theorem checkTaskCounts_eq_ok {ms : List TaskMatch}
    (h : ∀ m ∈ ms, m.inputs.map Record.key = m.outputs.map Record.key) :
    checkTaskCounts ms = .ok () := by
  have hcount : (ms.countP fun m => !m.inputs.isEmpty) = ms.countP fun m => !m.outputs.isEmpty := by
    refine List.countP_congr fun m hm => ?_
    have hl : m.inputs.length = m.outputs.length := by
      simpa using congrArg List.length (h m hm)
    rw [Bool.not_eq_true', Bool.not_eq_true', List.isEmpty_eq_false_iff, List.isEmpty_eq_false_iff,
      ← List.length_pos_iff, ← List.length_pos_iff, hl]
  simp [checkTaskCounts, hcount]

-- ---------------------------------------------------------------------------
-- One task
-- ---------------------------------------------------------------------------

theorem holds_iff {task : Task} :
    Holds options input output task m ↔
      m = ⟨task.name, Record.sort (input.records task.files),
        Record.sort (outputRecords options output task.files)⟩ := by
  constructor
  · rintro ⟨hn, hi, ho⟩
    obtain ⟨name, ins, outs⟩ := m
    rw [Record.stablySorted_iff] at hi ho
    simp only at hn hi ho
    rw [hn, hi, ho]
  · rintro rfl
    exact ⟨rfl, Record.sort_stablySorted _, Record.sort_stablySorted _⟩

theorem matchTask_eq_ok_iff {task : Task} :
    matchTask input output options.infilesOnly task = .ok m ↔
      (options.infilesOnly = false → ∀ path ∈ task.files,
        ¬((input.match? path).isSome ∧ (output.match? path).isSome)) ∧
      (∃ path ∈ task.files, (input.match? path).isSome) ∧ Holds options input output task m := by
  rw [holds_iff, ← records_ne_nil_iff]
  simp only [matchTask, bind_eq_ok, Prod.exists, classify_eq_ok_iff, outputRecords]
  constructor
  · rintro ⟨ins, outs, ⟨hap, rfl, rfl⟩, h⟩
    split at h
    · cases h
    · rename_i hne
      cases h
      exact ⟨hap, by simpa using hne, rfl⟩
  · rintro ⟨hap, hne, rfl⟩
    exact ⟨_, _, ⟨hap, rfl, rfl⟩, by simp [hne]⟩

theorem OneName.perm (h : inputs.Perm outputs) : OneName inputs ↔ OneName outputs := by
  simp only [OneName, h.mem_iff]

theorem nodup_sorted_iff {task : Task} (h : Holds options input output task m) :
    ((m.inputs ++ m.outputs).map Record.path).Nodup ↔
      ListedOnce input task.files ∧ (options.infilesOnly = false → ListedOnce output task.files ∧
        ∀ path ∈ task.files, ¬((input.match? path).isSome ∧ (output.match? path).isSome)) := by
  obtain rfl := holds_iff.mp h
  have hp : (Record.sort (input.records task.files) ++
        Record.sort (outputRecords options output task.files)).Perm
      (input.records task.files ++ outputRecords options output task.files) :=
    (Record.sort_perm _).append (Record.sort_perm _)
  rw [(hp.map Record.path).nodup_iff, List.map_append, List.nodup_append', nodup_records_iff]
  refine and_congr_right fun _ => ?_
  cases ho : options.infilesOnly with
  | true => simp [outputRecords, ho]
  | false => simp [outputRecords, ho, nodup_records_iff, disjoint_records_iff]

def checkMatch (options : Options) (m : TaskMatch) : Except Rejection Unit :=
  if options.infilesOnly then checkNames (Task.label m.task) m.inputs else checkPairs m

theorem checkMatch_eq_ok_iff {task : Task} (h : Holds options input output task m) :
    checkMatch options m = .ok () ↔
      OneName (input.records task.files) ∧ (options.infilesOnly = false →
        OneName (output.records task.files) ∧
        (∀ a ∈ input.records task.files, ∀ b ∈ output.records task.files,
          a.taskName ≠ "" → b.taskName ≠ "" → a.taskName = b.taskName) ∧
        ((input.records task.files).map Record.key).Perm
          ((output.records task.files).map Record.key)) := by
  obtain rfl := holds_iff.mp h
  rw [checkMatch]
  cases ho : options.infilesOnly with
  | true => simp [checkNames_eq_ok_iff, (OneName.perm (Record.sort_perm _))]
  | false =>
    simp [outputRecords, ho, checkPairs_eq_ok_iff, OneName.perm (Record.sort_perm _),
      Record.map_key_sort_eq_iff]

/-- The checks of one task decide whether it fits, and leave its sorted files. -/
theorem fits_and_holds_iff {task : Task} :
    Fits t options input output task ∧ Holds options input output task m ↔
      matchTask input output options.infilesOnly task = .ok m ∧
      checkFileSet t options.workDir m = .ok () ∧ checkMatch options m = .ok () := by
  rw [matchTask_eq_ok_iff, checkFileSet_eq_ok_iff]
  constructor
  · rintro ⟨hf, hh⟩
    have hpaired := hf.paired
    refine ⟨⟨fun ho => (hpaired ho).apart, hf.hasInput, hh⟩, ⟨(nodup_sorted_iff hh).mpr ⟨hf.once,
      fun ho => ⟨(hpaired ho).once, (hpaired ho).apart⟩⟩, ?_, ?_⟩, (checkMatch_eq_ok_iff hh).mpr
        ⟨hf.oneName, fun ho => ⟨(hpaired ho).oneName, (hpaired ho).sameName, (hpaired ho).sameTests⟩⟩⟩
    · obtain rfl := holds_iff.mp hh
      simpa using hf.vacant
    · obtain rfl := holds_iff.mp hh
      cases ho : options.infilesOnly with
      | true => intro k hk hk'; simp [outputRecords, ho] at hk'; omega
      | false => simpa [outputRecords, ho] using (hpaired ho).vacant
  · rintro ⟨⟨hap, hin, hh⟩, ⟨hnd, hvin, hvout⟩, hm⟩
    obtain ⟨hone, hpair⟩ := (checkMatch_eq_ok_iff hh).mp hm
    obtain ⟨honce, honce'⟩ := (nodup_sorted_iff hh).mp hnd
    refine ⟨⟨hin, honce, hone, ?_, fun ho => ?_⟩, hh⟩
    · obtain rfl := holds_iff.mp hh
      simpa using hvin
    · obtain ⟨ho1, hsame, htests⟩ := hpair ho
      refine ⟨hap ho, (honce' ho).1, ho1, hsame, htests, ?_⟩
      obtain rfl := holds_iff.mp hh
      simpa [outputRecords, ho] using hvout

-- ---------------------------------------------------------------------------
-- All tasks
-- ---------------------------------------------------------------------------

theorem compileTemplate_eq_ok_iff :
    compileTemplate context template = .ok p ↔ Pattern.compile context template = .ok p :=
  mapError_eq_ok

theorem checkMatches_eq_ok_iff {ms : List TaskMatch} {c : Candidate} :
    (if options.infilesOnly = true then do
        checkAll (fun m => checkNames (Task.label m.task) m.inputs) ms
        Except.ok ⟨definition.name, ms⟩
      else do
        checkTaskCounts ms
        checkAll checkPairs ms
        Except.ok ⟨definition.name, ms⟩ : Except Rejection Candidate) = .ok c ↔
      (∀ m ∈ ms, checkMatch options m = .ok ()) ∧ ⟨definition.name, ms⟩ = c := by
  cases ho : options.infilesOnly with
  | true =>
    simp [bind_eq_ok, checkAll_eq_ok_iff, checkMatch, ho, Unique.exists_iff]
  | false =>
    simp only [Bool.false_eq_true, if_false, bind_eq_ok, checkAll_eq_ok_iff, checkMatch, ho,
      Unique.exists_iff, PUnit.default_eq_unit, Except.ok.injEq]
    refine and_iff_right_of_imp fun h => checkTaskCounts_eq_ok fun m hm => ?_
    exact (checkPairs_eq_ok_iff.mp (h.1 m hm)).2.2.2

theorem evaluate_eq_ok_iff {tasks : List Task} {c : Candidate} :
    evaluate t context options definition tasks = .ok c ↔
      ∃ input output, Pattern.compile context definition.input = .ok input ∧
        Pattern.compile context definition.output = .ok output ∧
        (∀ task ∈ tasks, Fits t options input output task) ∧
        c.name = definition.name ∧ List.Forall₂ (Holds options input output) tasks c.tasks := by
  have hchecks (input output : Pattern) (ms : List TaskMatch) :
      (∀ task ∈ tasks, Fits t options input output task) ∧
        List.Forall₂ (Holds options input output) tasks ms ↔
      List.Forall₂ (fun task m => matchTask input output options.infilesOnly task = .ok m) tasks ms ∧
        ∀ m ∈ ms, checkFileSet t options.workDir m = .ok () ∧ checkMatch options m = .ok () := by
    rw [← List.forall₂_and_left, ← forall₂_and_right]
    simp only [fits_and_holds_iff]
  simp only [evaluate, bind_eq_ok, compileTemplate_eq_ok_iff, mapM_eq_ok, Unique.exists_iff,
    PUnit.default_eq_unit, checkAll_eq_ok_iff, checkMatches_eq_ok_iff]
  constructor
  · rintro ⟨input, hi, output, ho, ms, hms, hfiles, hmatch, rfl⟩
    obtain ⟨hfit, hholds⟩ := (hchecks input output ms).mpr
      ⟨hms, fun m hm => ⟨hfiles m hm, hmatch m hm⟩⟩
    exact ⟨input, output, hi, ho, hfit, rfl, hholds⟩
  · rintro ⟨input, output, hi, ho, hfit, hname, hholds⟩
    obtain ⟨hms, hm⟩ := (hchecks input output c.tasks).mp ⟨hfit, hholds⟩
    exact ⟨input, hi, output, ho, c.tasks, hms, fun m h => (hm m h).1, fun m h => (hm m h).2,
      by rw [← hname]⟩

theorem inputs_ne_nil {tasks : List Task} {c : Candidate} (h : evaluate t context options definition tasks = .ok c) :
    ∀ m ∈ c.tasks, m.inputs ≠ [] := by
  obtain ⟨input, output, -, -, hfits, -, hholds⟩ := evaluate_eq_ok_iff.mp h
  intro m hm
  obtain ⟨task, -, hfit, hhold⟩ := exists_of_mem_right ((List.forall₂_and_left _ _).mpr ⟨hfits, hholds⟩) hm
  rw [Record.stablySorted_iff.mp hhold.inputs]
  intro hnil
  have hlength := Record.length_sort (input.records task.files)
  rw [hnil] at hlength
  exact records_ne_nil_iff.mpr hfit.hasInput (List.length_eq_zero_iff.mp hlength.symm)

theorem outputs_eq_nil {tasks : List Task} {c : Candidate} (h : evaluate t context options definition tasks = .ok c)
    (hinfiles : options.infilesOnly = true) : ∀ m ∈ c.tasks, m.outputs = [] := by
  obtain ⟨input, output, -, -, -, -, hholds⟩ := evaluate_eq_ok_iff.mp h
  intro m hm
  obtain ⟨task, -, hhold⟩ := exists_of_mem_right hholds hm
  have houtputs := hhold.outputs
  rw [outputRecords, if_pos hinfiles] at houtputs
  exact (Record.stablySorted_iff.mp houtputs).trans (Record.sort_of_ordered .nil)

theorem matchTask_sorted {infilesOnly : Bool} {task : Task} {ins outs : List Record}
    (hclassify : classify input output infilesOnly (Task.label task.name) task.files = .ok (ins, outs))
    (hne : ins.isEmpty = false) (hins : Record.sort ins = inputs) (houts : Record.sort outs = outputs) :
    matchTask input output infilesOnly task = .ok ⟨task.name, inputs, outputs⟩ := by
  refine bind_eq_ok.mpr ⟨_, hclassify, ?_⟩
  simp [hne, hins, houts]

theorem matchTask_ordered {infilesOnly : Bool} {task : Task}
    (hclassify : classify input output infilesOnly (Task.label task.name) task.files = .ok (inputs, outputs))
    (hne : inputs.isEmpty = false) (hins : inputs.Pairwise fun a b => a.notAfter b)
    (houts : outputs.Pairwise fun a b => a.notAfter b) :
    matchTask input output infilesOnly task = .ok ⟨task.name, inputs, outputs⟩ :=
  matchTask_sorted hclassify hne (Record.sort_of_ordered hins) (Record.sort_of_ordered houts)

theorem evaluate_matched {ms : List TaskMatch} (hinput : Pattern.compile context definition.input = .ok input)
    (houtput : Pattern.compile context definition.output = .ok output)
    (h : List.Forall₂ (fun task m => matchTask input output options.infilesOnly task = .ok m ∧
      checkFileSet t options.workDir m = .ok () ∧ checkMatch options m = .ok ()) tasks ms) :
    evaluate t context options definition tasks = .ok ⟨definition.name, ms⟩ := by
  have hboth : List.Forall₂ (fun task m => Fits t options input output task ∧ Holds options input output task m) tasks ms :=
    h.imp fun _ _ => fits_and_holds_iff.mpr
  obtain ⟨hfits, hholds⟩ := (List.forall₂_and_left _ _).mp hboth
  exact evaluate_eq_ok_iff.mpr ⟨input, output, hinput, houtput, hfits, rfl, hholds⟩

theorem evaluate_ordered {task : Task} (hinput : Pattern.compile context definition.input = .ok input)
    (houtput : Pattern.compile context definition.output = .ok output)
    (hclassify : classify input output options.infilesOnly (Task.label task.name) task.files = .ok (inputs, outputs))
    (hne : inputs.isEmpty = false) (hins : inputs.Pairwise fun a b => a.notAfter b)
    (houts : outputs.Pairwise fun a b => a.notAfter b)
    (hfiles : checkFileSet t options.workDir ⟨task.name, inputs, outputs⟩ = .ok ())
    (hmatch : checkMatch options ⟨task.name, inputs, outputs⟩ = .ok ()) :
    evaluate t context options definition [task] = .ok ⟨definition.name, [⟨task.name, inputs, outputs⟩]⟩ :=
  evaluate_matched hinput houtput (.cons ⟨matchTask_ordered hclassify hne hins houts, hfiles, hmatch⟩ .nil)

theorem matchTask_single {name path : String} {record : Record} (h : input.match? path = some record) :
    matchTask input output true ⟨name, [path]⟩ = .ok ⟨name, [record], []⟩ := by
  refine @matchTask_ordered _ _ _ _ true ⟨name, [path]⟩ ?_ rfl (List.pairwise_singleton _ _) .nil
  simp [classify, h, Except.map]

theorem evaluate_single {workDir name path : String} {record : Record}
    (hinput : Pattern.compile context definition.input = .ok input)
    (houtput : Pattern.compile context definition.output = .ok output) (hmatch : input.match? path = some record)
    (hvacant : t.exists? (Path.join (Task.directory workDir name) (numbered 0 "in")) = false) :
    evaluate t context ⟨true, workDir⟩ definition [⟨name, [path]⟩] =
      .ok ⟨definition.name, [⟨name, [record], []⟩]⟩ := by
  refine evaluate_matched hinput houtput (.cons ⟨matchTask_single hmatch, ?_, ?_⟩ .nil)
  · simp [checkFileSet, checkTargets, hvacant, bind, Except.bind]
  · simp [checkMatch, checkNames]

theorem exists_evaluate (hinput : Pattern.compile context definition.input = .ok input)
    (houtput : Pattern.compile context definition.output = .ok output)
    (hfits : ∀ task ∈ tasks, Fits t options input output task) :
    ∃ c, evaluate t context options definition tasks = .ok c := by
  refine ⟨⟨definition.name, tasks.map fun task => ⟨task.name,
    Record.sort (input.records task.files),
    Record.sort (outputRecords options output task.files)⟩⟩, ?_⟩
  refine evaluate_eq_ok_iff.mpr ⟨input, output, hinput, houtput, hfits, rfl, ?_⟩
  rw [List.forall₂_map_right_iff, List.forall₂_same]
  exact fun task _ => holds_iff.mpr rfl

/-- Acceptance is a matter of the templates and of each task alone, and the candidate is made of the
stably sorted matches. -/
theorem accepted_iff_all_tasks_fit (t : Tree) (context : Template.Context) (options : Options)
    (definition : Definition) (tasks : List Task) :
    ((∃ c, evaluate t context options definition tasks = .ok c) ↔
      ∃ input output, Pattern.compile context definition.input = .ok input ∧
        Pattern.compile context definition.output = .ok output ∧
        ∀ task ∈ tasks, Fits t options input output task) ∧
    ∀ c, evaluate t context options definition tasks = .ok c ↔
      ∃ input output, Pattern.compile context definition.input = .ok input ∧
        Pattern.compile context definition.output = .ok output ∧
        (∀ task ∈ tasks, Fits t options input output task) ∧
        c.name = definition.name ∧ List.Forall₂ (Holds options input output) tasks c.tasks := by
  refine ⟨⟨?_, ?_⟩, fun c => evaluate_eq_ok_iff⟩
  · rintro ⟨c, h⟩
    obtain ⟨input, output, hi, ho, hfit, -⟩ := evaluate_eq_ok_iff.mp h
    exact ⟨input, output, hi, ho, hfit⟩
  · rintro ⟨input, output, hi, ho, hfit⟩
    exact exists_evaluate hi ho hfit

end Detection

end ContestTests
