import ContestTests.Proofs.Regex.Matching

/-!
# What a match has read

Whatever an expression is made of, it hands on a later place of the same text, and the groups it adds
are its own. Nothing is said about which of several ways it prefers.
-/

namespace ContestTests.Regex

variable {here : Cursor} {caps out : Captures} {next : Cursor → Captures → Option Captures} {n m : Nat}
  {f g round : Reading} {greedy : Bool} {s s' t t' : List Char}

/-- A success reads a piece of the text and adds groups up to a number. -/
def Advances (n : Nat) (f : Reading) : Prop :=
  ∀ here caps next out, f here caps next = some out → ∃ s t new, here.rest = s ++ t ∧
    (∀ group ∈ new, group.1 ≤ n) ∧ next (here.past s t) (new ++ caps) = some out

theorem Cursor.past_past (here : Cursor) (s t s' t' : List Char) :
    (here.past s t).past s' t' = here.past (s ++ s') t' := by
  simp [past, List.getLast?_append, Option.or_assoc]

theorem advances_stop : Advances n fun here caps next => next here caps :=
  fun here _ _ _ h => ⟨[], here.rest, [], rfl, by simp, h⟩

theorem Advances.mono (h : Advances n f) (hle : n ≤ m) : Advances m f := by
  intro here caps next out hout
  obtain ⟨s, t, new, hst, hnew, hnext⟩ := h here caps next out hout
  exact ⟨s, t, new, hst, fun group hgroup => Nat.le_trans (hnew group hgroup) hle, hnext⟩

theorem Advances.seq (h : Advances n f) (h' : Advances n g) :
    Advances n fun here caps next => f here caps fun here caps => g here caps next := by
  intro here caps next out hout
  obtain ⟨s, t, new, hst, hnew, hnext⟩ := h here caps _ out hout
  obtain ⟨s', t', new', hst', hnew', hnext'⟩ := h' _ _ next out hnext
  obtain rfl : t = s' ++ t' := hst'
  refine ⟨s ++ s', t', new' ++ new, by rw [hst, List.append_assoc], fun group hgroup => ?_, ?_⟩
  · exact (List.mem_append.mp hgroup).elim (hnew' group) (hnew group)
  · rwa [Cursor.past_past, ← List.append_assoc] at hnext'

theorem orElse_eq_some {first : Option Captures} {second : Unit → Option Captures}
    (h : first.orElse second = some out) : first = some out ∨ second () = some out := by
  rw [Option.orElse_eq_or] at h
  exact (Option.or_eq_some_iff.mp h).imp_right And.right

theorem Advances.orElse (h : Advances n f) (h' : Advances n g) :
    Advances n fun here caps next => (f here caps next).orElse fun _ => g here caps next := by
  intro here caps next out hout
  rcases orElse_eq_some hout with hfirst | hsecond
  · exact h here caps next out hfirst
  · exact h' here caps next out hsecond

theorem Advances.prefer (h : Advances n f) (h' : Advances n g) (greedy : Bool) :
    Advances n fun here caps next => Reading.prefer greedy (fun _ => f here caps next) (fun _ => g here caps next) := by
  cases greedy with
  | true => exact h.orElse h'
  | false => exact h'.orElse h

-- ---------------------------------------------------------------------------
-- Repetitions
-- ---------------------------------------------------------------------------

theorem advances_times (h : Advances n round) (count : Nat) : Advances n (Reading.times round count) := by
  induction count with
  | zero => exact advances_stop
  | succ count ih => exact h.seq ih

theorem advances_atMost (h : Advances n round) (greedy : Bool) (count : Nat) :
    Advances n (Reading.atMost round greedy count) := by
  induction count with
  | zero => exact advances_stop
  | succ count ih => exact (h.seq ih).prefer advances_stop greedy

theorem advances_oneOrMore (h : Advances n round) (greedy : Bool) (fuel : Nat) :
    Advances n (Reading.oneOrMore round greedy fuel) := by
  induction fuel with
  | zero =>
    intro here caps next out hout
    cases hout
  | succ fuel ih =>
    intro here caps next out hout
    -- Behind a round, the reading goes on or stops.
    have hgoOn : Advances n fun after caps next =>
        if after.rest.length < here.rest.length then
          Reading.prefer greedy (fun _ => Reading.oneOrMore round greedy fuel after caps next) (fun _ => next after caps)
        else next after caps := by
      intro after caps next out hout
      dsimp only at hout
      split at hout
      · exact (ih.prefer advances_stop greedy) after caps next out hout
      · exact advances_stop after caps next out hout
    exact h.seq hgoOn here caps next out hout

theorem advances_atLeast (h : Advances n round) (greedy : Bool) (least : Nat) :
    Advances n (Reading.atLeast round greedy least) := by
  intro here caps next out hout
  cases least with
  | zero => exact ((advances_oneOrMore h greedy _).prefer advances_stop greedy) here caps next out hout
  | succ least =>
    have hmore : Advances n fun here caps next => Reading.oneOrMore round greedy (here.rest.length + 1) here caps next :=
      fun here => advances_oneOrMore h greedy _ here
    exact ((advances_times h least).seq hmore) here caps next out hout

-- ---------------------------------------------------------------------------
-- Expressions
-- ---------------------------------------------------------------------------

theorem advances_char (set : CharSet) (folded : Bool) : Advances n (run (.char set folded)) := by
  rintro ⟨before, rest⟩ caps next out hout
  cases rest with
  | nil => cases hout
  | cons c rest =>
    simp only [run] at hout
    split at hout
    · exact ⟨[c], rest, [], rfl, by simp, hout⟩
    · cases hout

theorem advances_look (condition : Look) : Advances n (run (.look condition)) := by
  intro here caps next out hout
  simp only [run] at hout
  split at hout
  · exact advances_stop here caps next out hout
  · cases hout

theorem run_capture_eq_some {body : Regex} (h : Advances n (run body)) {index : Nat}
    (hout : run (.capture index body) here caps next = some out) :
    ∃ s t new, here.rest = s ++ t ∧ (∀ group ∈ new, group.1 ≤ n) ∧
      next (here.past s t) ((index, s) :: (new ++ caps)) = some out := by
  obtain ⟨s, t, new, hst, hnew, hnext⟩ := h here caps _ out hout
  rw [Cursor.upTo_past hst] at hnext
  exact ⟨s, t, new, hst, hnew, hnext⟩

theorem advances_run (r : Regex) : Advances r.maxCapture r.run := by
  induction r with
  | empty => exact advances_stop
  | char set folded => exact advances_char set folded
  | look condition => exact advances_look condition
  | capture index body ih =>
    intro here caps next out hout
    obtain ⟨s, t, new, hst, hnew, hnext⟩ := run_capture_eq_some ih hout
    refine ⟨s, t, (index, s) :: new, hst, List.forall_mem_cons.mpr ⟨Nat.le_max_left _ _, fun group hgroup => ?_⟩, hnext⟩
    exact Nat.le_trans (hnew group hgroup) (Nat.le_max_right _ _)
  | cat a b iha ihb => exact (iha.mono (Nat.le_max_left _ _)).seq (ihb.mono (Nat.le_max_right _ _))
  | alt a b iha ihb => exact (iha.mono (Nat.le_max_left _ _)).orElse (ihb.mono (Nat.le_max_right _ _))
  | rep body least most greedy ih =>
    cases most with
    | none => exact advances_atLeast ih greedy least
    | some most => exact (advances_times ih least).seq (advances_atMost ih greedy _)

end ContestTests.Regex
