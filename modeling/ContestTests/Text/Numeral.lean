/-!
# Decimal numerals

Numbers are read from ASCII digits with an optional sign, and refused when they do not fit.
-/

namespace ContestTests.Text

def ofDigits (digits : List Char) : Nat :=
  digits.foldl (fun value d => 10 * value + (d.toNat - '0'.toNat)) 0

def readDigits? (s : List Char) : Option Nat :=
  if s.isEmpty || !s.all Char.isDigit then none else some (ofDigits s)

def readBelow? (bound : Nat) (s : List Char) : Option Nat :=
  let digits := match s with
    | '+' :: rest => rest
    | s => s
  (readDigits? digits).filter (· < bound)

/-- A whole number from `-bound` up to but without `bound`, perhaps with a sign. -/
def readSigned? (bound : Nat) (s : List Char) : Option Int :=
  match s with
  | '-' :: digits => ((readDigits? digits).filter (· ≤ bound)).map fun n => -(n : Int)
  | s => (readBelow? bound s).map Int.ofNat

def bound32 : Nat := 0x100000000

def bound63 : Nat := 0x8000000000000000

def bound64 : Nat := 0x10000000000000000

def decimal (n : Nat) : String := n.repr

def padLeft (width : Nat) (s : String) : String :=
  String.ofList (List.replicate (width - s.length) ' ') ++ s

end ContestTests.Text
