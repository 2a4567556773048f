import ContestTests.Conversion
import ContestTests.Proofs.Detection.Pairing
import ContestTests.Proofs.Detection.Relisting

/-!
# Inputs alone

Tests can be converted without their outputs. A definition that is accepted with outputs is accepted without them,
for the same inputs in the same order, and it then makes no difference whether the outputs are left out when tests
are detected or when they are converted.
-/

namespace ContestTests

def TaskMatch.inputsAlone (m : TaskMatch) : TaskMatch := { m with outputs := [] }

def Candidate.inputsAlone (c : Candidate) : Candidate := { c with tasks := c.tasks.map TaskMatch.inputsAlone }

-- ---------------------------------------------------------------------------
-- Detecting
-- ---------------------------------------------------------------------------

namespace Detection

variable {t : Tree} {context : Template.Context} {definition : Definition} {input output : Pattern} {task : Task}
  {tasks : List Task} {m : TaskMatch} {c : Candidate} {workDir : String}

theorem Fits.inputsAlone (h : Fits t ⟨false, workDir⟩ input output task) : Fits t ⟨true, workDir⟩ input output task :=
  { h with paired := fun hboth => nomatch hboth }

theorem Holds.inputsAlone (h : Holds ⟨false, workDir⟩ input output task m) :
    Holds ⟨true, workDir⟩ input output task m.inputsAlone := by
  obtain rfl := holds_iff.mp h
  exact ⟨rfl, Record.sort_stablySorted _, Record.stablySorted_iff.mpr (Record.sort_of_ordered .nil).symm⟩

theorem evaluate_inputsAlone (h : evaluate t context ⟨false, workDir⟩ definition tasks = .ok c) :
    evaluate t context ⟨true, workDir⟩ definition tasks = .ok c.inputsAlone := by
  obtain ⟨input, output, hinput, houtput, hfits, hname, hholds⟩ := evaluate_eq_ok_iff.mp h
  refine evaluate_eq_ok_iff.mpr ⟨input, output, hinput, houtput, fun task htask => (hfits task htask).inputsAlone,
    hname, ?_⟩
  rw [Candidate.inputsAlone, List.forall₂_map_right_iff]
  exact hholds.imp fun _ _ hhold => hhold.inputsAlone

end Detection

-- ---------------------------------------------------------------------------
-- Converting
-- ---------------------------------------------------------------------------

namespace Conversion

variable {t : Tree} {context : Template.Context} {definition : Definition} {tasks : List Task} {c : Candidate}
  {workDir : String}

def Options.inputsAlone (o : Options) : Options := { o with infilesOnly := true }

theorem transfersFrom_inputsAlone (o : Options) (task : String) (index : Nat) (inputs outputs : List Record) :
    o.inputsAlone.transfersFrom task index inputs outputs = o.transfersFrom task index inputs [] := by
  induction inputs generalizing index outputs with
  | nil => rfl
  | cons input inputs ih =>
    cases outputs with
    | nil => exact congrArg _ (ih (index + 1) [])
    | cons output outputs => exact congrArg _ (ih (index + 1) outputs)

theorem task_inputsAlone (o : Options) (m : TaskMatch) : Work.task o.inputsAlone m = Work.task o m.inputsAlone := by
  have htransfers : o.inputsAlone.transfers m = o.transfers m.inputsAlone :=
    transfersFrom_inputsAlone o m.task 0 m.inputs m.outputs
  unfold Work.task
  rw [htransfers]
  rfl

theorem tasks_inputsAlone (o : Options) (ms : List TaskMatch) :
    Work.tasks o.inputsAlone ms = Work.tasks o (ms.map TaskMatch.inputsAlone) := by
  induction ms with
  | nil => rfl
  | cons m ms ih =>
    rw [List.map_cons, Work.tasks, Work.tasks, task_inputsAlone, ih]

theorem check_inputsAlone (t : Tree) (o : Options) (c : Candidate) :
    check t o.inputsAlone c = check t o c.inputsAlone := by
  have hmarks : (c.tasks.find? fun m => t.exists? (o.inputsAlone.marksPath m)) =
      c.tasks.find? ((fun m => t.exists? (o.marksPath m)) ∘ TaskMatch.inputsAlone) := rfl
  rw [check, check, hmarks, Candidate.inputsAlone, List.find?_map]
  -- The same task is found, and its marks file is named without looking at the outputs.
  generalize c.tasks.find? _ = found
  cases found <;> rfl

theorem apply_inputsAlone (t : Tree) (o : Options) (c : Candidate) :
    apply t o.inputsAlone c = apply t o c.inputsAlone := by
  unfold apply
  rw [check_inputsAlone, tasks_inputsAlone]
  rfl

/-- What is accepted with outputs is accepted without them, for the same inputs; converted without its outputs, it ends
as what was detected without outputs does, whatever is asked for there. -/
theorem accepted_inputsAlone (h : Detection.evaluate t context ⟨false, workDir⟩ definition tasks = .ok c) :
    Detection.evaluate t context ⟨true, workDir⟩ definition tasks = .ok c.inputsAlone ∧
      ∀ (t' : Tree) (o : Options), apply t' { o with infilesOnly := true } c = apply t' o c.inputsAlone :=
  ⟨Detection.evaluate_inputsAlone h, fun t' o => apply_inputsAlone t' o c⟩

open Detection in
/-- Of two tests with outputs, the inputs are copied. -/
theorem accepted_inputsAlone_twoTests :
    evaluate (taskTree ["1.in", "1.out", "2.in", "2.out"]) .default ⟨false, "w"⟩ pairScheme
      [⟨"", ["1.in", "1.out", "2.in", "2.out"]⟩] = .ok ⟨"pairs", [⟨"", [⟨"1.in", "", 1, 1⟩, ⟨"2.in", "", 2, 1⟩],
        [⟨"1.out", "", 1, 1⟩, ⟨"2.out", "", 2, 1⟩]⟩]⟩ ∧
    ∃ c, evaluate (taskTree ["1.in", "1.out", "2.in", "2.out"]) .default ⟨true, "w"⟩ pairScheme
        [⟨"", ["1.in", "1.out", "2.in", "2.out"]⟩] = .ok c ∧
      c.tasks = [⟨"", [⟨"1.in", "", 1, 1⟩, ⟨"2.in", "", 2, 1⟩], []⟩] ∧
      (apply (taskTree ["1.in", "1.out", "2.in", "2.out"]) ⟨"tasks", "w", .copy, false, false, "marks.txt"⟩ c).transfers =
        [⟨true, "tasks/1.in", "w/1.in"⟩, ⟨true, "tasks/2.in", "w/2.in"⟩] := by
  have hboth : evaluate (taskTree ["1.in", "1.out", "2.in", "2.out"]) .default ⟨false, "w"⟩ pairScheme
      [⟨"", ["1.in", "1.out", "2.in", "2.out"]⟩] = .ok ⟨"pairs", [⟨"", [⟨"1.in", "", 1, 1⟩, ⟨"2.in", "", 2, 1⟩],
        [⟨"1.out", "", 1, 1⟩, ⟨"2.out", "", 2, 1⟩]⟩]⟩ :=
    evaluate_ordered rfl rfl (by decide +kernel) rfl (by decide) (by decide) (by decide +kernel) (by decide +kernel)
  obtain ⟨halone, hconvert⟩ := accepted_inputsAlone hboth
  refine ⟨hboth, _, halone, rfl, ?_⟩
  rw [← hconvert]
  decide +kernel

end Conversion

end ContestTests
