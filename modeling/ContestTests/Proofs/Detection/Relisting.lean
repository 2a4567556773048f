import ContestTests.Proofs.Detection.Acceptance

/-!
# The order of the files and the files beside

A definition looks at the files that its templates match, and at their order only where two of them are of the
same test. So a task whose files are listed in another order, or with other files that match nothing, is accepted
as before, with the same tests.
-/

namespace ContestTests

namespace Detection

variable {t : Tree} {context : Template.Context} {options : Options} {definition : Definition}
  {input output pattern : Pattern} {task task' : Task} {tasks tasks' : List Task} {m m' : TaskMatch}
  {c c' : Candidate} {files files' extra extra' : List String}

-- ---------------------------------------------------------------------------
-- Tasks with the same matched files
-- ---------------------------------------------------------------------------

structure SameMatches (options : Options) (input output : Pattern) (task task' : Task) : Prop where
  name : task.name = task'.name
  inputs : (input.records task.files).Perm (input.records task'.files)
  outputs : options.infilesOnly = false → (output.records task.files).Perm (output.records task'.files)

namespace SameMatches

theorem symm (h : SameMatches options input output task task') : SameMatches options input output task' task :=
  ⟨h.name.symm, h.inputs.symm, fun hboth => (h.outputs hboth).symm⟩

theorem outputRecords_perm (h : SameMatches options input output task task') :
    (outputRecords options output task.files).Perm (outputRecords options output task'.files) := by
  unfold outputRecords
  split
  · exact .nil
  · rename_i hboth
    exact h.outputs (Bool.eq_false_iff.mpr hboth)

theorem listedOnce {p : Pattern} (h : (p.records files).Perm (p.records files')) (honce : ListedOnce p files) :
    ListedOnce p files' :=
  nodup_records_iff.mp ((h.map Record.path).nodup_iff.mp (nodup_records_iff.mpr honce))

theorem paired (h : SameMatches options input output task task') (hboth : options.infilesOnly = false)
    (hpaired : Paired t options.workDir input output task) : Paired t options.workDir input output task' := by
  have houtputs := h.outputs hboth
  refine ⟨?_, listedOnce houtputs hpaired.once, (OneName.perm houtputs).mp hpaired.oneName, fun a ha b hb => ?_, ?_, ?_⟩
  · rw [← disjoint_records_iff]
    have happart := disjoint_records_iff.mpr hpaired.apart
    exact fun path hi ho => happart ((h.inputs.map Record.path).mem_iff.mpr hi) ((houtputs.map Record.path).mem_iff.mpr ho)
  · exact hpaired.sameName a (h.inputs.mem_iff.mpr ha) b (houtputs.mem_iff.mpr hb)
  · exact ((h.inputs.map Record.key).symm.trans hpaired.sameTests).trans (houtputs.map Record.key)
  · rw [← h.name, ← houtputs.length_eq]
    exact hpaired.vacant

theorem fits (h : SameMatches options input output task task') (hfits : Fits t options input output task) :
    Fits t options input output task' := by
  refine ⟨?_, listedOnce h.inputs hfits.once, (OneName.perm h.inputs).mp hfits.oneName, ?_,
    fun hboth => h.paired hboth (hfits.paired hboth)⟩
  · rw [← records_ne_nil_iff, ← List.length_pos_iff, ← h.inputs.length_eq, List.length_pos_iff, records_ne_nil_iff]
    exact hfits.hasInput
  · rw [← h.name, ← h.inputs.length_eq]
    exact hfits.vacant

end SameMatches

-- ---------------------------------------------------------------------------
-- Matches with the same tests
-- ---------------------------------------------------------------------------

structure SameTests (m m' : TaskMatch) : Prop where
  task : m.task = m'.task
  inputs : m.inputs.map Record.key = m'.inputs.map Record.key
  outputs : m.outputs.map Record.key = m'.outputs.map Record.key

/-- No two files on one side of a task are of the same test. -/
def TestsApart (m : TaskMatch) : Prop := (m.inputs.map Record.key).Nodup ∧ (m.outputs.map Record.key).Nodup

instance (m : TaskMatch) : Decidable (TestsApart m) := inferInstanceAs (Decidable (_ ∧ _))

theorem SameMatches.sameTests (h : SameMatches options input output task task')
    (hm : Holds options input output task m) (hm' : Holds options input output task' m') : SameTests m m' := by
  obtain rfl := holds_iff.mp hm
  obtain rfl := holds_iff.mp hm'
  exact ⟨h.name, Record.map_key_sort_eq_iff.mpr (h.inputs.map _), Record.map_key_sort_eq_iff.mpr (h.outputRecords_perm.map _)⟩

theorem SameMatches.eq_of_testsApart (h : SameMatches options input output task task')
    (hm : Holds options input output task m) (hm' : Holds options input output task' m') (hapart : TestsApart m) :
    m = m' := by
  obtain rfl := holds_iff.mp hm
  obtain rfl := holds_iff.mp hm'
  obtain ⟨hinputs, houtputs⟩ := hapart
  have hinputs' := ((Record.sort_perm _).map Record.key).nodup_iff.mp hinputs
  have houtputs' := ((Record.sort_perm _).map Record.key).nodup_iff.mp houtputs
  rw [h.name, Record.sort_eq_of_perm h.inputs hinputs', Record.sort_eq_of_perm h.outputRecords_perm houtputs']

theorem countFiles_eq {ms ms' : List TaskMatch} (h : List.Forall₂ SameTests ms ms') : countFiles ms = countFiles ms' := by
  induction h with
  | nil => rfl
  | cons hsame _ ih =>
    have hinputs := congrArg List.length hsame.inputs
    have houtputs := congrArg List.length hsame.outputs
    simp only [List.length_map] at hinputs houtputs
    rw [countFiles, countFiles, hinputs, houtputs, ih]

theorem summary_eq (h : List.Forall₂ SameTests c.tasks c'.tasks) : c.summary = c'.summary := by
  rw [Candidate.summary, Candidate.summary, Candidate.total, Candidate.total, countFiles_eq h, Summary.mk.injEq]
  refine ⟨rfl, ?_⟩
  rw [← List.forall₂_eq_eq_eq, List.forall₂_map_left_iff, List.forall₂_map_right_iff]
  exact h.imp fun m m' hsame => by simpa using congrArg List.length hsame.inputs

-- ---------------------------------------------------------------------------
-- Other listings
-- ---------------------------------------------------------------------------

/-- A path that no template in use matches. -/
structure Bystander (context : Template.Context) (options : Options) (definition : Definition) (path : String) : Prop where
  input : ∀ pattern, Pattern.compile context definition.input = .ok pattern → pattern.match? path = none
  output : options.infilesOnly = false →
    ∀ pattern, Pattern.compile context definition.output = .ok pattern → pattern.match? path = none

/-- The same task with its files in another order, some bystanders more and some less. -/
structure Relisted (context : Template.Context) (options : Options) (definition : Definition) (task task' : Task) : Prop where
  name : task.name = task'.name
  listing : ∃ extra extra', (∀ path ∈ extra ++ extra', Bystander context options definition path) ∧
    (task.files ++ extra).Perm (task'.files ++ extra')

theorem records_perm (hnone : ∀ path ∈ extra ++ extra', pattern.match? path = none)
    (hperm : (files ++ extra).Perm (files' ++ extra')) : (pattern.records files).Perm (pattern.records files') := by
  obtain ⟨hextra, hextra'⟩ := List.forall_mem_append.mp hnone
  have hrecords := hperm.filterMap pattern.match?
  rw [List.filterMap_append, List.filterMap_append, List.filterMap_eq_nil_iff.mpr hextra,
    List.filterMap_eq_nil_iff.mpr hextra', List.append_nil, List.append_nil] at hrecords
  exact hrecords

theorem Relisted.sameMatches (h : Relisted context options definition task task')
    (hinput : Pattern.compile context definition.input = .ok input)
    (houtput : Pattern.compile context definition.output = .ok output) :
    SameMatches options input output task task' := by
  obtain ⟨extra, extra', hbystanders, hperm⟩ := h.listing
  exact ⟨h.name, records_perm (fun path hpath => (hbystanders path hpath).input input hinput) hperm,
    fun hboth => records_perm (fun path hpath => (hbystanders path hpath).output hboth output houtput) hperm⟩

theorem SameMatches.accepted (hinput : Pattern.compile context definition.input = .ok input)
    (houtput : Pattern.compile context definition.output = .ok output)
    (hsame : List.Forall₂ (SameMatches options input output) tasks tasks')
    (h : evaluate t context options definition tasks = .ok c) : ∃ c', evaluate t context options definition tasks' = .ok c' := by
  obtain ⟨input', output', hinput', houtput', hfits, -⟩ := evaluate_eq_ok_iff.mp h
  cases hinput.symm.trans hinput'
  cases houtput.symm.trans houtput'
  refine exists_evaluate hinput houtput fun task' htask' => ?_
  obtain ⟨task, htask, hmatches⟩ := exists_of_mem_right hsame htask'
  exact hmatches.fits (hfits task htask)

/-- Whether a definition is accepted, and for which tests, does not hang on the order of the files or on files that
match nothing. The order shows only between files of the same test. -/
theorem evaluate_relisted (t : Tree) (h : List.Forall₂ (Relisted context options definition) tasks tasks') :
    ((∃ c, evaluate t context options definition tasks = .ok c) ↔
      ∃ c, evaluate t context options definition tasks' = .ok c) ∧
    ∀ c c', evaluate t context options definition tasks = .ok c → evaluate t context options definition tasks' = .ok c' →
      c.name = c'.name ∧ c.summary = c'.summary ∧ List.Forall₂ SameTests c.tasks c'.tasks ∧
        ((∀ m ∈ c.tasks, TestsApart m) → c = c') := by
  refine ⟨⟨fun ⟨c, hc⟩ => ?_, fun ⟨c, hc⟩ => ?_⟩, fun c c' hc hc' => ?_⟩
  · obtain ⟨input, output, hinput, houtput, -⟩ := evaluate_eq_ok_iff.mp hc
    exact SameMatches.accepted hinput houtput (h.imp fun _ _ hlisted => hlisted.sameMatches hinput houtput) hc
  · obtain ⟨input, output, hinput, houtput, -⟩ := evaluate_eq_ok_iff.mp hc
    refine SameMatches.accepted hinput houtput (h.flip.imp fun _ _ hlisted => ?_) hc
    exact (hlisted.sameMatches hinput houtput).symm
  · obtain ⟨input, output, hinput, houtput, -, hname, hholds⟩ := evaluate_eq_ok_iff.mp hc
    obtain ⟨input', output', hinput', houtput', -, hname', hholds'⟩ := evaluate_eq_ok_iff.mp hc'
    cases hinput.symm.trans hinput'
    cases houtput.symm.trans houtput'
    have hsame := h.imp fun _ _ (hlisted : Relisted context options definition _ _) => hlisted.sameMatches hinput houtput
    have htests := forall₂_beside hsame hholds hholds' SameMatches.sameTests
    refine ⟨hname.trans hname'.symm, summary_eq htests, htests, fun hapart => ?_⟩
    have htasks : c.tasks = c'.tasks := by
      have hboth := forall₂_and_right.mpr ⟨hholds, hapart⟩
      rw [← List.forall₂_eq_eq_eq]
      exact forall₂_beside hsame hboth hholds' fun hmatches hm hm' => hmatches.eq_of_testsApart hm.1 hm' hm.2
    obtain ⟨name, ms⟩ := c
    obtain ⟨name', ms'⟩ := c'
    rw [Candidate.mk.injEq]
    exact ⟨hname.trans hname'.symm, htasks⟩

def pairScheme : Definition := ⟨"pairs", "$\x7bS\x7d.in", "$\x7bS\x7d.out", .none⟩

def onePair : Candidate := ⟨"pairs", [⟨"", [⟨"1.in", "", 1, 1⟩], [⟨"1.out", "", 1, 1⟩]⟩]⟩

/-- The output comes first, and notes are beside. -/
theorem evaluate_relisted_notes :
    List.Forall₂ (Relisted .default ⟨false, "w"⟩ pairScheme) [⟨"", ["1.in", "1.out"]⟩]
      [⟨"", ["notes", "1.out", "1.in"]⟩] ∧
    evaluate .empty .default ⟨false, "w"⟩ pairScheme [⟨"", ["notes", "1.out", "1.in"]⟩] = .ok onePair := by
  have hcompile : ∃ input output, Pattern.compile .default pairScheme.input = .ok input ∧
      Pattern.compile .default pairScheme.output = .ok output ∧ input.match? "notes" = none ∧
        output.match? "notes" = none ∧
        evaluate .empty .default ⟨false, "w"⟩ pairScheme [⟨"", ["1.in", "1.out"]⟩] = .ok onePair := by
    refine ⟨_, _, rfl, rfl, by decide +kernel, by decide +kernel, ?_⟩
    exact evaluate_ordered rfl rfl (by decide +kernel) rfl (by decide) (by decide) (by decide +kernel) (by decide +kernel)
  obtain ⟨input, output, hinput, houtput, hnone, hnone', hevaluate⟩ := hcompile
  have hnotes : Bystander .default ⟨false, "w"⟩ pairScheme "notes" := by
    refine ⟨fun pattern hpattern => ?_, fun _ pattern hpattern => ?_⟩
    · cases hinput.symm.trans hpattern
      exact hnone
    · cases houtput.symm.trans hpattern
      exact hnone'
  have hlisted : List.Forall₂ (Relisted .default ⟨false, "w"⟩ pairScheme) [⟨"", ["1.in", "1.out"]⟩]
      [⟨"", ["notes", "1.out", "1.in"]⟩] :=
    .cons ⟨rfl, ["notes"], [], by simpa using hnotes, by decide⟩ .nil
  refine ⟨hlisted, ?_⟩
  obtain ⟨hiff, hsame⟩ := evaluate_relisted .empty hlisted
  obtain ⟨c, hc⟩ := hiff.mp ⟨_, hevaluate⟩
  obtain ⟨-, -, -, heq⟩ := hsame _ _ hevaluate hc
  rw [hc, heq (by decide)]

end Detection

end ContestTests
