import ContestTests.Proofs.Text.Numerals
import ContestTests.Proofs.Text.Trimming
import ContestTests.Selection

/-!
# Dialogues about a choice

The operator is asked until an answer is usable: a number from zero to the length of the list. Every answer
before that one is objected to, and no answer behind it is looked at.
-/

namespace ContestTests

open Text

variable {answer : String} {answers before after : List String} {candidates : List Candidate} {count v : Nat}

-- ---------------------------------------------------------------------------
-- Answers
-- ---------------------------------------------------------------------------

/-- The answer is a number between blanks, in 64 bits. -/
def Gives (answer : String) (v : Nat) : Prop := IsUnsigned v (trim answer.toList) ∧ v < bound64

/-- The answer is the number of a candidate, or zero. -/
def Usable (count : Nat) (answer : String) : Prop := ∃ v, Gives answer v ∧ v ≤ count

/-- What there is to say against an answer that is not usable. -/
def Objects (count : Nat) (answer : String) : ChoiceProblem → Prop
  | .outOfRange max => max = count ∧ ∃ v, Gives answer v ∧ count < v
  | .notANumber => ¬∃ v, Gives answer v ∧ count < v

theorem readBelow?_eq_some_iff_gives : readBelow? bound64 (trim answer.toList) = some v ↔ Gives answer v :=
  readBelow?_eq_some_iff

instance : Decidable (Gives answer v) := decidable_of_iff _ readBelow?_eq_some_iff_gives

theorem parseChoice_trimmed : parseChoice (trimmed answer) count = parseChoice answer count := by
  rw [parseChoice, parseChoice, trimmed_toList, trim_trim]

theorem parseChoice_of_gives (h : Gives answer v) : parseChoice answer count =
    if v = 0 then .ok none else if v ≤ count then .ok (some (v - 1)) else .error (.outOfRange count) := by
  rw [parseChoice, readBelow?_eq_some_iff_gives.mpr h]
  cases v with
  | zero => rfl
  | succ n => rfl

theorem parseChoice_of_not_gives (h : ∀ v, ¬Gives answer v) : parseChoice answer count = .error .notANumber := by
  have hread : readBelow? bound64 (trim answer.toList) = none :=
    Option.eq_none_iff_forall_ne_some.mpr fun v hv => h v (readBelow?_eq_some_iff_gives.mp hv)
  rw [parseChoice, hread]

theorem exists_problem (h : ¬Usable count answer) :
    ∃ problem, parseChoice answer count = .error problem ∧ Objects count answer problem := by
  by_cases hgives : ∃ v, Gives answer v
  · obtain ⟨v, hv⟩ := hgives
    have hlt : count < v := Nat.lt_of_not_le fun hle => h ⟨v, hv, hle⟩
    refine ⟨.outOfRange count, ?_, rfl, v, hv, hlt⟩
    rw [parseChoice_of_gives hv, if_neg (Nat.ne_zero_of_lt hlt), if_neg (Nat.not_le_of_lt hlt)]
  · refine ⟨.notANumber, parseChoice_of_not_gives fun v hv => hgives ⟨v, hv⟩, ?_⟩
    exact fun ⟨v, hv, _⟩ => hgives ⟨v, hv⟩

theorem isOk_parseChoice : (parseChoice answer count).isOk ↔ Usable count answer := by
  constructor
  · intro hok
    by_contra h
    obtain ⟨problem, hparse, -⟩ := exists_problem h
    rw [hparse] at hok
    cases hok
  · rintro ⟨v, hgives, hv⟩
    rw [parseChoice_of_gives hgives]
    cases v with
    | zero => rfl
    | succ n => rw [if_neg (Nat.succ_ne_zero n), if_pos hv, Except.isOk, Except.toBool]

instance : Decidable (Usable count answer) := decidable_of_iff _ isOk_parseChoice

-- ---------------------------------------------------------------------------
-- Exchanges
-- ---------------------------------------------------------------------------

/-- Answers that are not usable, each with what there is to say against it. -/
structure Refused (count : Nat) (answers : List String) (objections : List (String × ChoiceProblem)) : Prop where
  answers : objections.map Prod.fst = answers
  objects : ∀ o ∈ objections, Objects count o.1 o.2

theorem objects_notANumber (h : readBelow? bound64 (trim answer.toList) = none) : Objects count answer .notANumber := by
  rintro ⟨v, hgives, -⟩
  rw [readBelow?_eq_some_iff_gives.mpr hgives] at h
  cases h

theorem Objects.unique {problem problem' : ChoiceProblem} (h : Objects count answer problem)
    (h' : Objects count answer problem') : problem = problem' := by
  cases problem with
  | notANumber =>
    cases problem' with
    | notANumber => rfl
    | outOfRange max => exact absurd h'.2 h
  | outOfRange max =>
    cases problem' with
    | notANumber => exact absurd h.2 h'
    | outOfRange max' => exact congrArg _ (h.1.trans h'.1.symm)

theorem Refused.unique {objections objections' : List (String × ChoiceProblem)} (h : Refused count answers objections)
    (h' : Refused count answers objections') : objections = objections' := by
  induction objections generalizing answers objections' with
  | nil =>
    have hnil := h'.answers.trans h.answers.symm
    exact (List.map_eq_nil_iff.mp hnil).symm
  | cons o objections ih =>
    cases objections' with
    | nil => cases h.answers.trans h'.answers.symm
    | cons o' objections' =>
      obtain ⟨hfirst, hrest⟩ := List.cons_eq_cons.mp (h.answers.trans h'.answers.symm)
      obtain ⟨ho, hobjections⟩ := List.forall_mem_cons.mp h.objects
      obtain ⟨ho', hobjections'⟩ := List.forall_mem_cons.mp h'.objects
      have hproblem := ho.unique (hfirst ▸ ho')
      rw [Prod.ext hfirst hproblem, ih ⟨rfl, hobjections⟩ ⟨hrest.symm, hobjections'⟩]

/-- The same question over and over, each answer objected to, up to a question that is still open. -/
def asked (candidates : List Candidate) (objections : List (String × ChoiceProblem)) : List Exchange :=
  objections.flatMap (fun o => [.ask candidates, .retry o.1 o.2]) ++ [.ask candidates]

theorem choose_refused (h : ∀ a ∈ before, ¬Usable candidates.length a) (after : List String) :
    ∃ objections, Refused candidates.length before objections ∧
      choose candidates (before ++ after) = { choose candidates after with
        exchanges := objections.flatMap (fun o => [.ask candidates, .retry o.1 o.2]) ++
          (choose candidates after).exchanges } := by
  induction before with
  | nil => exact ⟨[], ⟨rfl, by simp⟩, rfl⟩
  | cons answer before ih =>
    obtain ⟨hanswer, hbefore⟩ := List.forall_mem_cons.mp h
    obtain ⟨problem, hparse, hobjects⟩ := exists_problem hanswer
    obtain ⟨objections, ⟨hanswers, hall⟩, hchoose⟩ := ih hbefore
    refine ⟨(answer, problem) :: objections, ⟨?_, List.forall_mem_cons.mpr ⟨hobjects, hall⟩⟩, ?_⟩
    · rw [List.map_cons, hanswers]
    · rw [List.cons_append, choose, hparse]
      dsimp only
      rw [hchoose]
      rfl

theorem choose_gives (h : Gives answer v) (hv : v ≤ candidates.length) (after : List String) :
    choose candidates (answer :: after) =
      ⟨[.ask candidates], if v = 0 then .cancelled else .chosen (v - 1), after⟩ := by
  rw [choose, parseChoice_of_gives h]
  cases v with
  | zero => rfl
  | succ n => rw [if_neg (Nat.succ_ne_zero n), if_pos hv, if_neg (Nat.succ_ne_zero n)]

def Exchange.trimmed : Exchange → Exchange
  | .ask shown => .ask shown
  | .retry answer problem => .retry (Text.trimmed answer) problem

theorem choose_trimmed (candidates : List Candidate) (answers : List String) :
    (choose candidates (answers.map trimmed)).choice = (choose candidates answers).choice ∧
      (choose candidates (answers.map trimmed)).exchanges =
        (choose candidates answers).exchanges.map Exchange.trimmed := by
  induction answers with
  | nil => exact ⟨rfl, rfl⟩
  | cons answer answers ih =>
    rw [List.map_cons, choose, choose, parseChoice_trimmed]
    cases parseChoice answer candidates.length with
    | error problem =>
      exact ⟨ih.1, congrArg (Exchange.ask candidates :: .retry (trimmed answer) problem :: ·) ih.2⟩
    | ok choice =>
      cases choice with
      | none => exact ⟨rfl, rfl⟩
      | some index => exact ⟨rfl, rfl⟩

-- ---------------------------------------------------------------------------
-- What is settled on
-- ---------------------------------------------------------------------------

namespace Selection

variable {exchanges : List Exchange} {unused : List String} {selection : Selection}

/-- Zero cancels, and every other number is that of a candidate, counted from one. -/
def decision? (candidates : List Candidate) : Nat → Option Selection
  | 0 => some .cancelled
  | n + 1 => candidates[n]?.map fun c => .selected c .chosen

theorem exists_decision (h : v ≤ candidates.length) : ∃ selection, decision? candidates v = some selection := by
  cases v with
  | zero => exact ⟨.cancelled, rfl⟩
  | succ n => exact ⟨_, by rw [decision?, List.getElem?_eq_getElem h, Option.map_some]⟩

theorem exists_several (h : 2 ≤ candidates.length) : ∃ c d more, candidates = c :: d :: more := by
  match candidates, h with
  | c :: d :: more, _ => exact ⟨c, d, more, rfl⟩

theorem resolve_of_choose (hcount : 2 ≤ candidates.length) (hdecision : decision? candidates v = some selection)
    (h : choose candidates answers = ⟨exchanges, if v = 0 then .cancelled else .chosen (v - 1), unused⟩) :
    resolve false candidates answers = ⟨exchanges, unused, .ok selection⟩ := by
  obtain ⟨c, d, more, rfl⟩ := exists_several hcount
  simp only [resolve, h, Bool.false_eq_true, if_false]
  cases v with
  | zero =>
    cases hdecision
    rfl
  | succ n =>
    obtain ⟨chosen, hchosen, rfl⟩ := Option.map_eq_some_iff.mp hdecision
    simp [List.getD_eq_getElem?_getD, hchosen]

theorem resolve_closed (hcount : 2 ≤ candidates.length) (h : choose candidates answers = ⟨exchanges, .closed, unused⟩) :
    resolve false candidates answers = ⟨exchanges, unused, .error .promptClosed⟩ := by
  obtain ⟨c, d, more, rfl⟩ := exists_several hcount
  simp only [resolve, h, Bool.false_eq_true, if_false]

theorem resolve_gives (hcount : 2 ≤ candidates.length) (hbefore : ∀ a ∈ before, ¬Usable candidates.length a)
    (hgives : Gives answer v) (hv : v ≤ candidates.length) (after : List String) :
    ∃ objections selection, Refused candidates.length before objections ∧ decision? candidates v = some selection ∧
      resolve false candidates (before ++ answer :: after) = ⟨asked candidates objections, after, .ok selection⟩ := by
  obtain ⟨objections, hrefused, hchoose⟩ := choose_refused hbefore (answer :: after)
  obtain ⟨selection, hdecision⟩ := exists_decision hv
  rw [choose_gives hgives hv] at hchoose
  exact ⟨objections, selection, hrefused, hdecision, resolve_of_choose hcount hdecision hchoose⟩

theorem resolve_refused (hcount : 2 ≤ candidates.length) (h : ∀ a ∈ answers, ¬Usable candidates.length a) :
    ∃ objections, Refused candidates.length answers objections ∧
      resolve false candidates answers = ⟨asked candidates objections, [], .error .promptClosed⟩ := by
  obtain ⟨objections, hrefused, hchoose⟩ := choose_refused h []
  rw [List.append_nil] at hchoose
  exact ⟨objections, hrefused, resolve_closed hcount hchoose⟩

/-- Blanks around answers change nothing but the answers that are objected to. -/
theorem resolve_trimmed (auto : Bool) (candidates : List Candidate) (answers : List String) :
    (resolve auto candidates (answers.map trimmed)).result = (resolve auto candidates answers).result ∧
      (resolve auto candidates (answers.map trimmed)).exchanges =
        (resolve auto candidates answers).exchanges.map Exchange.trimmed := by
  match candidates, auto with
  | [], _ => exact ⟨rfl, rfl⟩
  | [c], _ => exact ⟨rfl, rfl⟩
  | c :: d :: more, true => exact ⟨rfl, rfl⟩
  | c :: d :: more, false =>
    obtain ⟨hchoice, hexchanges⟩ := choose_trimmed (c :: d :: more) answers
    refine ⟨?_, hexchanges⟩
    simp only [resolve, Bool.false_eq_true, if_false, hchoice]

end Selection

end ContestTests
