import ContestTests.Proofs.Regex.Reading

/-!
# What comes first among the ways to match

An expression without a choice of its own tries the texts of its language from the longest to the
shortest. `Greedy` states this through the continuation: the result is that of the longest text
behind which the continuation succeeds.
-/

namespace ContestTests.Regex

open ContestTests.Text

variable {here : Cursor} {c : Char} {s t rest : List Char} {L L' : List Char → Prop} {caps out : Captures}
  {next : Cursor → Captures → Option Captures} {set : CharSet} {folded : Bool} {a b : Regex}

namespace Cursor

def past (here : Cursor) (s left : List Char) : Cursor := ⟨s.getLast?.or here.before, left⟩

@[simp] theorem past_rest : (here.past s t).rest = t := rfl

theorem past_nil (here : Cursor) : here.past [] here.rest = here := rfl

theorem past_cons (before : Option Char) (c : Char) (rest s t : List Char) :
    (Cursor.mk before rest).past (c :: s) t = (Cursor.mk (some c) rest).past s t := by
  cases s <;> simp [past, List.getLast?_cons]

theorem upTo_past (h : here.rest = s ++ t) : here.upTo (here.past s t) = s := by
  simp [upTo, h]

end Cursor

abbrev Waiting := Captures → (Cursor → Captures → Option Captures) → Option Captures

/-- The reading from this place prefers the longer texts of a language. -/
def GreedyAt (here : Cursor) (L : List Char → Prop) (f : Waiting) : Prop :=
  ∀ caps next out, f caps next = some out ↔
    ∃ s t, here.rest = s ++ t ∧ L s ∧ next (here.past s t) caps = some out ∧
      ∀ s' t', here.rest = s' ++ t' → L s' → s.length < s'.length → next (here.past s' t') caps = none

def Greedy (L : List Char → Prop) (r : Regex) : Prop := ∀ here, GreedyAt here L (r.run here)

variable {f : Waiting}

theorem GreedyAt.eq_none_iff (hf : GreedyAt here L f) :
    f caps next = none ↔
      ∀ s t, here.rest = s ++ t → L s → next (here.past s t) caps = none := by
  constructor
  · intro hnone s t hst hs
    refine Option.eq_none_iff_forall_ne_some.mpr fun out hout => ?_
    -- A text behind which the continuation succeeds has a longer one like it, and so on.
    induction hn : here.rest.length - s.length using Nat.strongRecOn generalizing s t out with
    | _ n ih =>
      have hall := (not_congr (hf caps next out)).mp (by simp [hnone])
      refine hall ⟨s, t, hst, hs, hout, fun s' t' hst' hs' hlen => ?_⟩
      refine Option.eq_none_iff_forall_ne_some.mpr fun out' hout' => ?_
      have hle : s'.length ≤ here.rest.length := by rw [hst', List.length_append]; omega
      exact ih (here.rest.length - s'.length) (by omega) s' t' hst' hs' out' hout' rfl
  · intro h
    refine Option.eq_none_iff_forall_ne_some.mpr fun out hout => ?_
    obtain ⟨s, t, hst, hs, hnext, -⟩ := (hf caps next out).mp hout
    rw [h s t hst hs] at hnext
    cases hnext

theorem GreedyAt.congr (hf : GreedyAt here L f)
    (h : ∀ s t, here.rest = s ++ t → (L s ↔ L' s)) : GreedyAt here L' f := by
  intro caps next out
  rw [hf caps next out]
  refine exists_congr fun s => exists_congr fun t => ?_
  constructor
  · rintro ⟨hst, hs, hnext, hlong⟩
    exact ⟨hst, (h s t hst).mp hs, hnext, fun s' t' hst' hs' => hlong s' t' hst' ((h s' t' hst').mpr hs')⟩
  · rintro ⟨hst, hs, hnext, hlong⟩
    exact ⟨hst, (h s t hst).mpr hs, hnext, fun s' t' hst' hs' => hlong s' t' hst' ((h s' t' hst').mp hs')⟩

theorem greedyAt_none (h : ∀ s t, here.rest = s ++ t → ¬L s) : GreedyAt here L fun _ _ => none := by
  intro caps next out
  constructor
  · intro h
    cases h
  · rintro ⟨s, t, hst, hs, -⟩
    exact absurd hs (h s t hst)

theorem greedyAt_empty (here : Cursor) : GreedyAt here (· = []) fun caps next => next here caps := by
  intro caps next out
  constructor
  · exact fun h => ⟨[], here.rest, rfl, rfl, h, fun s' t' _ hs' hlen => by simp [hs'] at hlen⟩
  · rintro ⟨s, t, hst, rfl, hnext, -⟩
    obtain rfl : here.rest = t := hst
    exact hnext

theorem GreedyAt.cons (hf : GreedyAt ⟨some c, rest⟩ L f) (before : Option Char) :
    GreedyAt ⟨before, c :: rest⟩ (fun s => ∃ t, s = c :: t ∧ L t) f := by
  intro caps next out
  rw [hf caps next out]
  constructor
  · rintro ⟨s, t, hst, hs, hnext, hlong⟩
    refine ⟨c :: s, t, by rw [List.cons_append]; exact congrArg _ hst, ⟨s, rfl, hs⟩, ?_, ?_⟩
    · rw [Cursor.past_cons]
      exact hnext
    · rintro s' t' hst' ⟨s', rfl, hs'⟩ hlen
      rw [Cursor.past_cons]
      exact hlong s' t' (List.cons.inj hst').2 hs' (by simpa using hlen)
  · rintro ⟨_, t, hst, ⟨s, rfl, hs⟩, hnext, hlong⟩
    rw [Cursor.past_cons] at hnext
    refine ⟨s, t, (List.cons.inj hst).2, hs, hnext, fun s' t' hst' hs' hlen => ?_⟩
    rw [← hlong (c :: s') t' (congrArg _ hst') ⟨s', rfl, hs'⟩ (by simpa using hlen), Cursor.past_cons]
    rfl

theorem prefer_greedy (more stop : Unit → Option Captures) :
    Reading.prefer true more stop = (more ()).orElse stop := rfl

theorem GreedyAt.orStop (hf : GreedyAt here L f) (hne : ¬L []) :
    GreedyAt here (fun s => L s ∨ s = []) fun caps next =>
      Reading.prefer true (fun _ => f caps next) (fun _ => next here caps) := by
  intro caps next out
  dsimp only
  have hstop := fun t (hst : here.rest = [] ++ t) => show here.past [] t = here by
    rw [← show here.rest = t from hst]
    exact here.past_nil
  cases hmore : f caps next with
  | some out' =>
    obtain ⟨s, t, hst, hs, hnext, hlong⟩ := (hf caps next out').mp hmore
    have hpos : 0 < s.length := List.length_pos_iff.mpr fun h => hne (h ▸ hs)
    rw [prefer_greedy, Option.orElse_some]
    constructor
    · rintro ⟨⟩
      refine ⟨s, t, hst, .inl hs, hnext, fun s' t' hst' hs' hlen => ?_⟩
      rcases hs' with hs' | rfl
      · exact hlong s' t' hst' hs' hlen
      · simp at hlen
    · rintro ⟨s', t', hst', hs' | rfl, hnext', hlong'⟩
      · rw [← hmore]
        exact (hf caps next out).mpr ⟨s', t', hst', hs', hnext',
          fun s'' t'' hst'' hs'' => hlong' s'' t'' hst'' (.inl hs'')⟩
      · rw [hlong' s t hst (.inl hs) hpos] at hnext
        cases hnext
  | none =>
    have hall := hf.eq_none_iff.mp hmore
    rw [prefer_greedy, Option.orElse_none]
    constructor
    · intro hnext
      refine ⟨[], here.rest, rfl, .inr rfl, hnext, fun s' t' hst' hs' hlen => ?_⟩
      rcases hs' with hs' | rfl
      · exact hall s' t' hst' hs'
      · simp at hlen
    · rintro ⟨s', t', hst', hs' | rfl, hnext', -⟩
      · rw [hall s' t' hst' hs'] at hnext'
        cases hnext'
      · rwa [hstop t' hst'] at hnext'

-- ---------------------------------------------------------------------------
-- Characters and their repetitions
-- ---------------------------------------------------------------------------

theorem greedy_empty : Greedy (· = []) .empty := greedyAt_empty

theorem Greedy.char_cat (hb : Greedy L b) :
    Greedy (fun s => ∃ c t, s = c :: t ∧ set.mem folded c ∧ L t) (.cat (.char set folded) b) := by
  rintro ⟨before, _ | ⟨c, rest⟩⟩
  · refine greedyAt_none ?_
    rintro s t hst ⟨c, t', rfl, -⟩
    cases hst
  · cases hc : set.mem folded c with
    | true =>
      have hrun : run (.cat (.char set folded) b) ⟨before, c :: rest⟩ = run b ⟨some c, rest⟩ := by
        funext caps next
        simp [run, hc]
      rw [hrun]
      refine ((hb ⟨some c, rest⟩).cons before).congr fun s t hst => ?_
      constructor
      · rintro ⟨t', rfl, ht'⟩
        exact ⟨c, t', rfl, hc, ht'⟩
      · rintro ⟨c', t', rfl, -, ht'⟩
        cases hst
        exact ⟨t', rfl, ht'⟩
    | false =>
      have hrun : run (.cat (.char set folded) b) ⟨before, c :: rest⟩ = fun _ _ => none := by
        funext caps next
        simp [run, hc]
      rw [hrun]
      refine greedyAt_none ?_
      rintro s t hst ⟨c', t', rfl, hc', -⟩
      cases hst
      simp [hc] at hc'

theorem greedy_char : Greedy (fun s => ∃ c, s = [c] ∧ set.mem folded c) (.char set folded) := by
  intro here
  have hrun : run (.char set folded) here = run (.cat (.char set folded) .empty) here := rfl
  rw [hrun]
  refine (Greedy.char_cat greedy_empty here).congr fun s t _ => ?_
  constructor
  · rintro ⟨c, t', rfl, hc, rfl⟩
    exact ⟨c, rfl, hc⟩
  · rintro ⟨c, rfl, hc⟩
    exact ⟨c, [], rfl, hc, rfl⟩

def AllIn (set : CharSet) (folded : Bool) (s : List Char) : Prop := ∀ c ∈ s, set.mem folded c

theorem oneOrMore_none {before : Option Char} (hc : set.mem folded c = false) (fuel : Nat) :
    Reading.oneOrMore (run (.char set folded)) true (fuel + 1) ⟨before, c :: rest⟩ = fun _ _ => none := by
  funext caps next
  simp [Reading.oneOrMore, run, hc]

theorem oneOrMore_more {before : Option Char} (hc : set.mem folded c) (fuel : Nat) :
    Reading.oneOrMore (run (.char set folded)) true (fuel + 1) ⟨before, c :: rest⟩ = fun caps next =>
      Reading.prefer true (fun _ => Reading.oneOrMore (run (.char set folded)) true fuel ⟨some c, rest⟩ caps next)
        (fun _ => next ⟨some c, rest⟩ caps) := by
  funext caps next
  simp [Reading.oneOrMore, run, hc]

/-- A text that begins with a character of the set and goes on with more of them, or ends. -/
theorem allIn_cons_iff (hc : set.mem folded c) (hst : s ++ t = c :: rest) :
    (∃ t', s = c :: t' ∧ (t' ≠ [] ∧ AllIn set folded t' ∨ t' = [])) ↔ s ≠ [] ∧ AllIn set folded s := by
  constructor
  · rintro ⟨t', rfl, ht'⟩
    refine ⟨by simp, List.forall_mem_cons.mpr ⟨hc, ?_⟩⟩
    rcases ht' with ⟨-, ht'⟩ | rfl
    · exact ht'
    · simp
  · rintro ⟨hne, hs⟩
    cases s with
    | nil => exact absurd rfl hne
    | cons d s =>
      cases hst
      refine ⟨s, rfl, ?_⟩
      rcases s with _ | ⟨d, s⟩
      · exact .inr rfl
      · exact .inl ⟨by simp, (List.forall_mem_cons.mp hs).2⟩

theorem oneOrMore_greedyAt (h : here.rest.length < fuel) :
    GreedyAt here (fun s => s ≠ [] ∧ AllIn set folded s)
      (Reading.oneOrMore (run (.char set folded)) true fuel here) := by
  induction fuel generalizing here with
  | zero => omega
  | succ fuel ih =>
    obtain ⟨before, _ | ⟨c, rest⟩⟩ := here
    · refine greedyAt_none ?_
      rintro (_ | ⟨c, s⟩) t hst ⟨hne, -⟩
      · exact hne rfl
      · cases hst
    · cases hc : set.mem folded c with
      | true =>
        have hmore := @ih ⟨some c, rest⟩ (by simpa using h)
        rw [oneOrMore_more hc]
        exact ((hmore.orStop (by simp)).cons before).congr fun s t hst => allIn_cons_iff hc hst.symm
      | false =>
        rw [oneOrMore_none hc]
        refine greedyAt_none ?_
        rintro (_ | ⟨d, s⟩) t hst ⟨hne, hs⟩
        · exact hne rfl
        · cases hst
          have hd := hs c List.mem_cons_self
          simp [hc] at hd

theorem greedy_plus :
    Greedy (fun s => s ≠ [] ∧ AllIn set folded s) (.rep (.char set folded) 1 none true) :=
  fun _ => oneOrMore_greedyAt (Nat.lt_succ_self _)

theorem greedy_star : Greedy (AllIn set folded) (.rep (.char set folded) 0 none true) := by
  intro here
  refine ((oneOrMore_greedyAt (Nat.lt_succ_self _)).orStop (by simp)).congr fun s t _ => ?_
  cases s <;> simp [AllIn]

theorem greedy_optional :
    Greedy (fun s => (∃ c, s = [c] ∧ set.mem folded c) ∨ s = []) (.rep (.char set folded) 0 (some 1) true) :=
  fun here => (greedy_char here).orStop (by simp)

-- ---------------------------------------------------------------------------
-- Literal text, groups and places
-- ---------------------------------------------------------------------------

theorem greedy_literal (s : List Char) : Greedy (SameFold · s) (sequence (s.map literalChar)) := by
  induction s with
  | nil => exact fun here => (greedy_empty here).congr fun s t _ => sameFold_nil.symm
  | cons c s ih =>
    refine fun here => (Greedy.char_cat ih here).congr fun l t _ => ?_
    rw [sameFold_cons]
    refine exists_congr fun d => exists_congr fun l' => and_congr_right fun _ => and_congr_left fun _ => ?_
    exact mem_single_iff.trans eq_comm

theorem run_sequence_append (as bs : List Regex) :
    run (sequence (as ++ bs)) here caps next =
      run (sequence as) here caps fun here caps => run (sequence bs) here caps next := by
  induction as generalizing here caps next with
  | nil => rfl
  | cons a as ih =>
    have hcons : run (sequence (a :: as ++ bs)) here caps next =
      run a here caps fun here caps => run (sequence (as ++ bs)) here caps next := rfl
    rw [hcons]
    simp only [ih]
    rfl

theorem run_literal_eq_some_iff : run (sequence (s.map literalChar)) here caps next = some out ↔
    ∃ l t, here.rest = l ++ t ∧ SameFold l s ∧ next (here.past l t) caps = some out := by
  rw [greedy_literal s here caps next out]
  refine exists_congr fun l => exists_congr fun t => ?_
  constructor
  · rintro ⟨hlt, hl, hnext, -⟩
    exact ⟨hlt, hl, hnext⟩
  · rintro ⟨hlt, hl, hnext⟩
    refine ⟨hlt, hl, hnext, fun l' t' _ hl' hlen => ?_⟩
    rw [hl.length_eq, hl'.length_eq] at hlen
    omega

theorem run_literal_eq_none_iff : run (sequence (s.map literalChar)) here caps next = none ↔
    ∀ l t, here.rest = l ++ t → SameFold l s → next (here.past l t) caps = none :=
  (greedy_literal s here).eq_none_iff

theorem run_capture_eq_some_iff (ha : Greedy L a) : run (.capture n a) here caps next = some out ↔
    ∃ s t, here.rest = s ++ t ∧ L s ∧ next (here.past s t) ((n, s) :: caps) = some out ∧
      ∀ s' t', here.rest = s' ++ t' → L s' → s.length < s'.length →
        next (here.past s' t') ((n, s') :: caps) = none := by
  refine (ha here caps _ out).trans ?_
  refine exists_congr fun s => exists_congr fun t => and_congr_right fun hst => and_congr_right fun _ => ?_
  rw [Cursor.upTo_past hst]
  refine and_congr_right fun _ => forall_congr' fun s' => forall_congr' fun t' => ?_
  constructor
  · intro h hst'
    rw [Cursor.upTo_past hst'] at h
    exact h hst'
  · intro h hst'
    rw [Cursor.upTo_past hst']
    exact h hst'

theorem run_capture_eq_none_iff (ha : Greedy L a) : run (.capture n a) here caps next = none ↔
    ∀ s t, here.rest = s ++ t → L s → next (here.past s t) ((n, s) :: caps) = none := by
  refine (ha here).eq_none_iff.trans ?_
  refine forall_congr' fun s => forall_congr' fun t => ?_
  constructor
  · intro h hst
    rw [Cursor.upTo_past hst] at h
    exact h hst
  · intro h hst
    rw [Cursor.upTo_past hst]
    exact h hst

theorem search_textStart (r : Regex) (text : List Char) :
    search (.cat (.look .textStart) r) text = r.matchAt ⟨none, text⟩ := by
  have hlater (s : List Char) (c : Char) : searchFrom (.cat (.look .textStart) r) (some c) s = none := by
    induction s generalizing c with
    | nil => rfl
    | cons d s ih =>
      rw [searchFrom, ih d]
      rfl
  cases text with
  | nil => rfl
  | cons c s =>
    rw [search, searchFrom, hlater s c]
    have hfirst : matchAt (.cat (.look .textStart) r) ⟨none, c :: s⟩ = r.matchAt ⟨none, c :: s⟩ := rfl
    rw [hfirst]
    cases r.matchAt ⟨none, c :: s⟩ <;> rfl

end ContestTests.Regex
