import ContestTests.Regex.CharSet
import ContestTests.Text.Category

/-!
# Expressions and what they match

`run` reads an expression from a cursor and hands the cursor behind it to a continuation, trying
the preferred way first: the left branch of a choice, one more round of a greedy repetition. The
first way on which everything that follows succeeds is the match. A repetition whose round read
nothing stops there.
-/

namespace ContestTests.Regex

open ContestTests.Text

/-- A place in a text: the character before it and the characters after it. -/
structure Cursor where
  before : Option Char
  rest : List Char

inductive Look where
  | textStart
  | textEnd
  | lineStart (crlf : Bool)
  | lineEnd (crlf : Bool)
  | wordBoundary
  | notWordBoundary
  | wordStart
  | wordEnd
  | wordStartHalf
  | wordEndHalf

namespace Cursor

def wordBefore (here : Cursor) : Bool := here.before.any isWord

def wordAfter (here : Cursor) : Bool := here.rest.head?.any isWord

def upTo (start stop : Cursor) : List Char :=
  start.rest.take (start.rest.length - stop.rest.length)

end Cursor

def Look.holds (here : Cursor) : Look → Bool
  | .textStart => here.before.isNone
  | .textEnd => here.rest.isEmpty
  | .lineStart false => here.before.all (· == '\n')
  | .lineStart true => here.before.all fun c =>
      c == '\n' || (c == '\r' && here.rest.head? != some '\n')
  | .lineEnd false => here.rest.head?.all (· == '\n')
  | .lineEnd true => here.rest.head?.all fun c =>
      c == '\r' || (c == '\n' && here.before != some '\r')
  | .wordBoundary => here.wordBefore != here.wordAfter
  | .notWordBoundary => here.wordBefore == here.wordAfter
  | .wordStart => !here.wordBefore && here.wordAfter
  | .wordEnd => here.wordBefore && !here.wordAfter
  | .wordStartHalf => !here.wordBefore
  | .wordEndHalf => !here.wordAfter

/-- What each group read last, latest first. -/
abbrev Captures := List (Nat × List Char)

end ContestTests.Regex

namespace ContestTests

inductive Regex where
  | empty
  | char (set : Regex.CharSet) (folded : Bool)
  | look (condition : Regex.Look)
  | capture (index : Nat) (body : Regex)
  | cat (first second : Regex)
  | alt (first second : Regex)
  | rep (body : Regex) (least : Nat) (most : Option Nat) (greedy : Bool)

namespace Regex

def sequence (parts : List Regex) : Regex := parts.foldr .cat .empty

def choice : List Regex → Regex
  | [] => .empty
  | [r] => r
  | r :: more => .alt r (choice more)

/-- Between `least` and `most` rounds. No round at all drops the groups inside. -/
def rounds (body : Regex) (least : Nat) (most : Option Nat) (greedy : Bool) : Regex :=
  if most = some 0 then .empty else .rep body least most greedy

def maxCapture : Regex → Nat
  | empty | char .. | look _ => 0
  | capture index body => max index (maxCapture body)
  | cat a b | alt a b => max (maxCapture a) (maxCapture b)
  | rep body .. => maxCapture body

/-- Reads on from a place and hands the place behind to what follows. -/
abbrev Reading := Cursor → Captures → (Cursor → Captures → Option Captures) → Option Captures

namespace Reading

def prefer (greedy : Bool) (more stop : Unit → Option Captures) : Option Captures :=
  if greedy then (more ()).orElse stop else (stop ()).orElse more

def times (round : Reading) : Nat → Reading
  | 0 => fun here caps next => next here caps
  | n + 1 => fun here caps next => round here caps fun here caps => times round n here caps next

def atMost (round : Reading) (greedy : Bool) : Nat → Reading
  | 0 => fun here caps next => next here caps
  | n + 1 => fun here caps next =>
    prefer greedy (fun _ => round here caps fun here caps => atMost round greedy n here caps next)
      (fun _ => next here caps)

/-- One round or more, as long as rounds read something; `fuel` bounds their number. -/
def oneOrMore (round : Reading) (greedy : Bool) : Nat → Reading
  | 0 => fun _ _ _ => none
  | fuel + 1 => fun here caps next =>
    round here caps fun after caps =>
      -- A round that read nothing would read nothing for ever.
      if after.rest.length < here.rest.length then
        prefer greedy (fun _ => oneOrMore round greedy fuel after caps next)
          (fun _ => next after caps)
      else next after caps

def atLeast (round : Reading) (greedy : Bool) : Nat → Reading
  | 0 => fun here caps next =>
    prefer greedy (fun _ => oneOrMore round greedy (here.rest.length + 1) here caps next)
      (fun _ => next here caps)
  | least + 1 => fun here caps next =>
    -- The last round that must be is the first of those that may go on.
    times round least here caps fun here caps =>
      oneOrMore round greedy (here.rest.length + 1) here caps next

end Reading

def run : Regex → Reading
  | empty => fun here caps next => next here caps
  | char set folded => fun here caps next =>
    match here.rest with
    | [] => none
    | c :: rest => if set.mem folded c then next ⟨some c, rest⟩ caps else none
  | look condition => fun here caps next => if condition.holds here then next here caps else none
  | capture index body => fun here caps next =>
    run body here caps fun after caps => next after ((index, here.upTo after) :: caps)
  | cat a b => fun here caps next => run a here caps fun here caps => run b here caps next
  | alt a b => fun here caps next =>
    (run a here caps next).orElse fun _ => run b here caps next
  | rep body least none greedy => fun here caps next =>
    Reading.atLeast (run body) greedy least here caps next
  | rep body least (some most) greedy => fun here caps next =>
    Reading.times (run body) least here caps fun here caps =>
      Reading.atMost (run body) greedy (most - least) here caps next

def matchAt (r : Regex) (here : Cursor) : Option Captures :=
  r.run here [] fun _ caps => some caps

def searchFrom (r : Regex) (before : Option Char) : List Char → Option Captures
  | [] => r.matchAt ⟨before, []⟩
  | c :: rest => (r.matchAt ⟨before, c :: rest⟩).orElse fun _ => searchFrom r (some c) rest

def search (r : Regex) (text : List Char) : Option Captures := searchFrom r none text

end Regex

end ContestTests
