import ContestTests.Proofs.Conversion.Interruption
import ContestTests.Proofs.Detection.Ranking

/-!
# Converting once more

After a conversion that keeps the tasks, or moves their files where they are, every task is found under its
name, and its first numbered file exists. So no definition is accepted for the same output directory.
Two things can hinder the second scan: cleaning up may take a directory that the path of the tasks goes through, and
a copy may make a directory whose path from there is too long.
-/

namespace ContestTests

open ContestTests.Path

variable {t t' : Tree} {o : Options} {base way : Key} {level : Nat}

-- ---------------------------------------------------------------------------
-- Rejections
-- ---------------------------------------------------------------------------

namespace Detection

variable {context : Template.Context} {options : Options} {definition : Definition} {tasks : List Task} {task : Task}
  {definitions : List Definition} {c : Candidate}

/-- No definition is accepted where the first numbered input of a task exists. -/
theorem evaluate_error_of_exists (htask : task ∈ tasks)
    (hexists : t.exists? (Path.join (Task.directory options.workDir task.name) (numbered 0 "in"))) :
    ∃ r, evaluate t context options definition tasks = .error r := by
  cases h : evaluate t context options definition tasks with
  | error r => exact ⟨r, rfl⟩
  | ok c =>
    obtain ⟨input, output, -, -, hfits, -, -⟩ := evaluate_eq_ok_iff.mp h
    have hfit := hfits task htask
    have hpos := List.length_pos_iff.mpr (records_ne_nil_iff.mpr hfit.hasInput)
    exact absurd hexists (hfit.vacant 1 (Nat.le_refl 1) hpos)

end Detection

namespace Conversion

variable {c : Candidate} {m : TaskMatch} {report : Report} {scanned : List Task}
  {context : Template.Context} {definition : Definition}

/-- Scanning finds tasks, none of which is free for another conversion. -/
def Settled (t : Tree) (o : Options) (level : Nat) : Prop :=
  ∃ scanned, Task.scan t o.taskDir level = .ok scanned ∧
    ∀ context infilesOnly,
      (∀ definition, ∃ r, Detection.evaluate t context ⟨infilesOnly, o.workDir⟩ definition scanned = .error r) ∧
      ∀ definitions auto answers,
        Selection.resolve auto (Detection.detect t context ⟨infilesOnly, o.workDir⟩ definitions scanned).candidates
          answers = ⟨[], answers, .error .detectionFailed⟩

section

variable {after : Tree}

end

/-- A conversion that ends well leaves the tree in order, but perhaps without the directory where relative paths
start. -/
theorem Found.rooted (h : Found t o level c) (hok : (apply t o c).result = .ok report) :
    (apply t o c).tree.fromRoot.WellFormed ∧ (apply t o c).tree.current = t.current := by
  obtain ⟨-, after, hrun, htree⟩ := run_of_ok hok
  have hafter := hrun.underway_done h.underway
  rw [htree]
  split
  · exact ⟨removeEmptyDirs_fromRoot hafter.wellFormed.fromRoot _, (removeEmptyDirs_current hafter.wellFormed.fromRoot _).trans hafter.current⟩
  · exact ⟨hafter.wellFormed.fromRoot, hafter.current⟩

def prefixScheme : Definition := ⟨"plain", "a$\x7bS\x7d.in", "a$\x7bS\x7d.out", .none⟩

end Conversion

end ContestTests
