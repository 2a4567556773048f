import ContestTests.Detection

/-!
# Settling on a candidate

One candidate is taken without asking. Of several, the best is assumed in automatic mode, and else the
operator is asked until an answer is usable: a number from the list, or zero to cancel.
-/

namespace ContestTests

open Text

inductive ChoiceProblem where
  | notANumber
  | outOfRange (max : Nat)
deriving DecidableEq, Repr

def ChoiceProblem.message : ChoiceProblem → String
  | .notANumber => "Input is invalid!"
  | .outOfRange _ => "Incorrect choice!"

def parseChoice (answer : String) (count : Nat) : Except ChoiceProblem (Option Nat) :=
  match readBelow? bound64 (trim answer.toList) with
  | none => .error .notANumber
  | some 0 => .ok none
  | some (n + 1) => if n < count then .ok (some n) else .error (.outOfRange count)

inductive Exchange where
  /-- A question for one of the candidates shown, best first. -/
  | ask (shown : List Candidate)
  | retry (answer : String) (problem : ChoiceProblem)
deriving DecidableEq, Repr

inductive Choice where
  | chosen (index : Nat)
  | cancelled
  /-- There was no answer to the last question. -/
  | closed
deriving DecidableEq, Repr

/-- A finished dialogue and the answers that were not needed. -/
structure Dialogue where
  exchanges : List Exchange
  choice : Choice
  unused : List String
deriving DecidableEq, Repr

def choose (candidates : List Candidate) : List String → Dialogue
  | [] => ⟨[.ask candidates], .closed, []⟩
  | answer :: answers =>
    match parseChoice answer candidates.length with
    | .ok (some index) => ⟨[.ask candidates], .chosen index, answers⟩
    | .ok none => ⟨[.ask candidates], .cancelled, answers⟩
    | .error problem =>
      let rest := choose candidates answers
      { rest with exchanges := .ask candidates :: .retry answer problem :: rest.exchanges }

inductive Resolution where
  | unique
  | assumed (candidates : Nat)
  | chosen
deriving DecidableEq, Repr

inductive Selection where
  | selected (candidate : Candidate) (resolution : Resolution)
  | cancelled
deriving DecidableEq, Repr

namespace Selection

structure Outcome where
  exchanges : List Exchange
  unused : List String
  result : Except Failure Selection

def resolve (auto : Bool) (candidates : List Candidate) (answers : List String) : Outcome :=
  match candidates with
  | [] => ⟨[], answers, .error .detectionFailed⟩
  | [c] => ⟨[], answers, .ok (.selected c .unique)⟩
  | best :: more =>
    if auto then ⟨[], answers, .ok (.selected best (.assumed (more.length + 1)))⟩
    else
      let dialogue := choose candidates answers
      let result := match dialogue.choice with
        | .closed => .error .promptClosed
        | .cancelled => .ok .cancelled
        | .chosen index => .ok (.selected ((best :: more).getD index best) .chosen)
      ⟨dialogue.exchanges, dialogue.unused, result⟩

end Selection

end ContestTests
