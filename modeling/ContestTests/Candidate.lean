import ContestTests.Record
import ContestTests.Task

/-!
# Candidates

A candidate is a naming scheme that explains the files of all tasks. Candidates rank by the number of
files they explain, and then by the input files of the first task in which they differ; those that
rank equally keep their order.
-/

namespace ContestTests

/-- The files of a task that a scheme explains, in the order of their tests. -/
structure TaskMatch where
  task : String
  inputs : List Record
  outputs : List Record
deriving DecidableEq, Repr

structure Candidate where
  name : String
  tasks : List TaskMatch
deriving DecidableEq, Repr

structure Summary where
  total : Nat
  inputCounts : List Nat
deriving DecidableEq, Repr

/-- The order of lists of numbers by the first difference; a list comes before its extensions. -/
def compareCounts : List Nat → List Nat → Ordering
  | [], [] => .eq
  | [], _ :: _ => .lt
  | _ :: _, [] => .gt
  | a :: as, b :: bs => (compare a b).then (compareCounts as bs)

/-- Less means better. -/
def Summary.rank (a b : Summary) : Ordering :=
  (compare b.total a.total).then (compareCounts b.inputCounts a.inputCounts)

def countFiles : List TaskMatch → Nat
  | [] => 0
  | m :: more => m.inputs.length + m.outputs.length + countFiles more

namespace Candidate

def total (c : Candidate) : Nat := countFiles c.tasks

def summary (c : Candidate) : Summary := ⟨c.total, c.tasks.map (·.inputs.length)⟩

def display (c : Candidate) : String :=
  "(" ++ Text.padLeft 3 (Text.decimal c.total) ++ ") " ++ c.name

def sort (candidates : List Candidate) : List Candidate :=
  candidates.mergeSort fun a b => a.summary.rank b.summary != .gt

end Candidate

end ContestTests
