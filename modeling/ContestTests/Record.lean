import ContestTests.Text.Numeral

/-!
# Records and marks

A record is a file that fits a template: its path and what the path says about the test. Tests are
ordered by group and number, and records of the same test keep their order. The marks of sorted
records end each group with a `1`.
-/

namespace ContestTests

structure Record where
  /-- Relative to the directory of the task. -/
  path : String
  /-- Empty if the template names no task. -/
  taskName : String
  group : Nat
  /-- One if the template names no test. -/
  test : Nat
deriving DecidableEq, Repr

namespace Record

/-- The value of a field that is stated once more; nothing if the two disagree. -/
def coalesce [DecidableEq α] (old : Option α) (new : α) : Option α :=
  match old with
  | some old => if old = new then some new else none
  | none => some new

def notAfter (a b : Record) : Bool :=
  a.group < b.group || (a.group == b.group && a.test ≤ b.test)

def sort (records : List Record) : List Record := records.mergeSort notAfter

/-- For each record, whether it is the last before another group or the end. -/
def marks : List Record → List Int
  | [] => []
  | [_] => [1]
  | r :: next :: more => (if next.group = r.group then -1 else 1) :: marks (next :: more)

def renderMarks (marks : List Int) : String :=
  String.join (marks.map fun mark => (if mark < 0 then "-" else "") ++ Text.decimal mark.natAbs ++ "\n")

end Record

end ContestTests
