import ContestTests.Text.Case

/-!
# Sets of characters

A set keeps the way it was written. Under folding every written range and property stands for all
characters that fold together with one of its members; complements and intersections are taken
afterwards.
-/

namespace ContestTests.Regex

open ContestTests.Text

inductive CharSet where
  | empty
  | range (first last : Char)
  | property (holds : Char → Bool)
  | union (a b : CharSet)
  | inter (a b : CharSet)
  | diff (a b : CharSet)
  | symDiff (a b : CharSet)
  | compl (a : CharSet)

namespace CharSet

def single (c : Char) : CharSet := .range c c

def ofRanges (ranges : List (Char × Char)) : CharSet :=
  ranges.foldr (fun r set => .union (.range r.1 r.2) set) .empty

/-- Whether `p` holds of `c`, or under folding of a character that folds together with it. -/
def holdsAt (folded : Bool) (p : Char → Bool) (c : Char) : Bool :=
  if folded then (orbit c).any p else p c

def mem (folded : Bool) : CharSet → Char → Bool
  | empty, _ => false
  | range first last, c => holdsAt folded (fun d => first ≤ d && d ≤ last) c
  | property holds, c => holdsAt folded holds c
  | union a b, c => mem folded a c || mem folded b c
  | inter a b, c => mem folded a c && mem folded b c
  | diff a b, c => mem folded a c && !mem folded b c
  | symDiff a b, c => mem folded a c != mem folded b c
  | compl a, c => !mem folded a c

end CharSet

inductive SetOp where
  | inter
  | diff
  | symDiff

def SetOp.apply : SetOp → CharSet → CharSet → CharSet
  | .inter => .inter
  | .diff => .diff
  | .symDiff => .symDiff

end ContestTests.Regex
