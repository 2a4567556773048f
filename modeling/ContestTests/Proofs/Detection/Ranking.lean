import ContestTests.Proofs.Sorting
import ContestTests.Selection

/-!
# Ranking

Every definition adds one candidate or one rejection to a detection, and the candidates are ranked by
a stable sort. So the best candidate is the first of those that no other is better than, and leaving
out definitions that did not win leaves the winner.
-/

namespace ContestTests

variable {a b c : Summary}

/-- More files are better, and among as many files the later list of counts is. -/
def Summary.Better (a b : Summary) : Prop :=
  b.total < a.total ∨ a.total = b.total ∧ b.inputCounts < a.inputCounts

-- ---------------------------------------------------------------------------
-- The order of summaries
-- ---------------------------------------------------------------------------

theorem compareCounts_swap (as bs : List Nat) :
    (compareCounts as bs).swap = compareCounts bs as := by
  induction as generalizing bs with
  | nil => cases bs <;> rfl
  | cons a as ih =>
    cases bs with
    | nil => rfl
    | cons b bs => rw [compareCounts, compareCounts, Ordering.swap_then, Nat.compare_swap, ih]

theorem compareCounts_eq_eq {as bs : List Nat} : compareCounts as bs = .eq ↔ as = bs := by
  induction as generalizing bs with
  | nil => cases bs <;> simp [compareCounts]
  | cons a as ih =>
    cases bs with
    | nil => simp [compareCounts]
    | cons b bs => rw [compareCounts, Ordering.then_eq_eq, Nat.compare_eq_eq, ih, List.cons.injEq]

theorem compareCounts_eq_lt {as bs : List Nat} : compareCounts as bs = .lt ↔ as < bs := by
  induction as generalizing bs with
  | nil =>
    cases bs with
    | nil => simp [compareCounts]
    | cons b bs => simp [compareCounts, List.nil_lt_cons]
  | cons a as ih =>
    cases bs with
    | nil => simp [compareCounts]
    | cons b bs =>
      rw [compareCounts, Ordering.then_eq_lt, Nat.compare_eq_lt, Nat.compare_eq_eq, ih,
        List.cons_lt_cons_iff]

namespace Summary

theorem rank_swap (a b : Summary) : (a.rank b).swap = b.rank a := by
  rw [rank, rank, Ordering.swap_then, Nat.compare_swap, compareCounts_swap]

theorem rank_eq_eq : a.rank b = .eq ↔ a = b := by
  rw [rank, Ordering.then_eq_eq, Nat.compare_eq_eq, compareCounts_eq_eq, eq_comm,
    @eq_comm _ b.inputCounts]
  cases a
  cases b
  rw [mk.injEq]

theorem rank_eq_lt : a.rank b = .lt ↔ a.Better b := by
  rw [rank, Ordering.then_eq_lt, Nat.compare_eq_lt, Nat.compare_eq_eq, compareCounts_eq_lt, Better,
    eq_comm]

theorem rank_eq_gt : a.rank b = .gt ↔ b.Better a := by
  rw [← rank_eq_lt, ← rank_swap a b, Ordering.swap_eq_lt]

theorem rank_ne_gt : a.rank b ≠ .gt ↔ a.Better b ∨ a = b := by
  rw [← rank_eq_lt, ← rank_eq_eq]
  cases a.rank b <;> decide

theorem Better.trans (hab : a.Better b) (hbc : b.Better c) : a.Better c := by
  rcases hab with hab | ⟨hab, hab'⟩
  · rcases hbc with hbc | ⟨hbc, -⟩
    · exact .inl (Nat.lt_trans hbc hab)
    · exact .inl (hbc ▸ hab)
  · rcases hbc with hbc | ⟨hbc, hbc'⟩
    · exact .inl (hab ▸ hbc)
    · exact .inr ⟨hab.trans hbc, List.lt_trans hbc' hab'⟩

theorem Better.asymm (hab : a.Better b) (hba : b.Better a) : False := by
  rw [← rank_eq_gt, rank_eq_lt.mpr hab] at hba
  exact absurd hba (by decide)

theorem rank_self (a : Summary) : a.rank a ≠ .gt := rank_ne_gt.mpr (.inr rfl)

theorem rank_total (a b : Summary) : a.rank b ≠ .gt ∨ b.rank a ≠ .gt := by
  rw [← rank_swap a b]
  cases a.rank b <;> decide

theorem rank_trans (hab : a.rank b ≠ .gt) (hbc : b.rank c ≠ .gt) : a.rank c ≠ .gt := by
  rw [rank_ne_gt] at *
  rcases hab with hab | rfl
  · rcases hbc with hbc | rfl
    · exact .inl (hab.trans hbc)
    · exact .inl hab
  · exact hbc

end Summary

-- ---------------------------------------------------------------------------
-- Ranked candidates
-- ---------------------------------------------------------------------------

/-- The same candidates, none after a better one, and those with one summary in their order. -/
structure Ranked (accepted ranked : List Candidate) : Prop where
  perm : ranked.Perm accepted
  ordered : ranked.Pairwise fun a b => a.summary.rank b.summary ≠ .gt
  stable : ∀ s, (ranked.filter fun c => c.summary = s) = accepted.filter fun c => c.summary = s

/-- Better than all candidates before it, and none after it is better. -/
structure FirstBest (before : List Candidate) (best : Candidate) (after : List Candidate) : Prop where
  before : ∀ c ∈ before, best.summary.Better c.summary
  after : ∀ c ∈ after, ¬ c.summary.Better best.summary

theorem ranked_sort (accepted : List Candidate) : Ranked accepted (Candidate.sort accepted) := by
  have htrans : ∀ a b c : Candidate, (a.summary.rank b.summary != .gt) →
      (b.summary.rank c.summary != .gt) → (a.summary.rank c.summary != .gt) := by
    intro a b c hab hbc
    exact bne_iff_ne.mpr (Summary.rank_trans (bne_iff_ne.mp hab) (bne_iff_ne.mp hbc))
  have htotal : ∀ a b : Candidate,
      (a.summary.rank b.summary != .gt) || (b.summary.rank a.summary != .gt) := by
    intro a b
    rw [Bool.or_eq_true, bne_iff_ne, bne_iff_ne]
    exact Summary.rank_total _ _
  refine ⟨List.mergeSort_perm _ _, ?_, fun s => ?_⟩
  · exact (List.pairwise_mergeSort htrans htotal accepted).imp bne_iff_ne.mp
  · refine filter_mergeSort htrans htotal (fun a b ha hb => ?_) accepted
    rw [of_decide_eq_true ha, of_decide_eq_true hb]
    exact bne_iff_ne.mpr (Summary.rank_self s)

section

variable {accepted ranked before after : List Candidate} {best : Candidate}

theorem Ranked.firstBest (h : Ranked accepted ranked) (hbest : ranked.head? = some best) :
    ∃ before after, accepted = before ++ best :: after ∧ FirstBest before best after := by
  obtain ⟨rest, rfl⟩ := List.head?_eq_some_iff.mp hbest
  have hrest : ∀ c ∈ accepted, best.summary.Better c.summary ∨ best.summary = c.summary := by
    intro c hc
    rcases List.mem_cons.mp (h.perm.mem_iff.mpr hc) with rfl | hc
    · exact .inr rfl
    · exact Summary.rank_ne_gt.mp (List.rel_of_pairwise_cons h.ordered hc)
  -- Of the candidates with the summary of the best it is the first.
  have hfirst := h.stable best.summary
  rw [List.filter_cons_of_pos (by simp)] at hfirst
  obtain ⟨before, after, rfl, hbefore, -, -⟩ := List.filter_eq_cons_iff.mp hfirst.symm
  refine ⟨before, after, rfl, fun c hc => ?_, fun c hc hbetter => ?_⟩
  · refine (hrest c (List.mem_append_left _ hc)).resolve_right fun he => ?_
    exact hbefore c hc (decide_eq_true he.symm)
  · rw [← Summary.rank_eq_gt] at hbetter
    exact Summary.rank_ne_gt.mpr (hrest c (by simp [hc])) hbetter

theorem Ranked.head? (h : Ranked (before ++ best :: after) ranked) (hbest : FirstBest before best after) :
    ranked.head? = some best := by
  cases ranked with
  | nil => exact absurd h.perm.length_eq (by simp)
  | cons first rest =>
    have hfirst : first.summary.Better best.summary ∨ first.summary = best.summary := by
      rcases List.mem_cons.mp (h.perm.mem_iff.mpr (by simp : best ∈ before ++ best :: after)) with rfl | hmem
      · exact .inr rfl
      · exact Summary.rank_ne_gt.mp (List.rel_of_pairwise_cons h.ordered hmem)
    have hsame : first.summary = best.summary := by
      refine hfirst.resolve_left fun hbetter => ?_
      rcases List.mem_append.mp (h.perm.mem_iff.mp List.mem_cons_self) with hmem | hmem
      · exact hbetter.asymm (hbest.before first hmem)
      · rcases List.mem_cons.mp hmem with rfl | hmem
        · exact hbetter.asymm hbetter
        · exact hbest.after first hmem hbetter
    have hnone : (before.filter fun c => c.summary = best.summary) = [] := by
      refine List.filter_eq_nil_iff.mpr fun c hc he => ?_
      have hbetter := hbest.before c hc
      rw [of_decide_eq_true he] at hbetter
      exact hbetter.asymm hbetter
    -- So both are the first with their summary, in lists that agree in those.
    have hstable := h.stable best.summary
    rw [List.filter_append, hnone, List.nil_append, List.filter_cons_of_pos (by simp [hsame]),
      List.filter_cons_of_pos (by simp), List.cons.injEq] at hstable
    rw [hstable.1, List.head?_cons]

end

-- ---------------------------------------------------------------------------
-- Detection
-- ---------------------------------------------------------------------------

namespace Detection

/-- Each definition adds one candidate or one rejection, in the order of the definitions. -/
inductive Sifts (eval : Definition → Except Rejection Candidate) :
    List Definition → List Candidate → List (String × Rejection) → Prop
  | nil : Sifts eval [] [] []
  | accepted {d c ds cs rs} (h : eval d = .ok c) (rest : Sifts eval ds cs rs) :
    Sifts eval (d :: ds) (c :: cs) rs
  | rejected {d r ds cs rs} (h : eval d = .error r) (rest : Sifts eval ds cs rs) :
    Sifts eval (d :: ds) cs ((d.name, r) :: rs)

/-- The definition is accepted, as better than what was accepted before it, and none after it is
better. -/
structure Wins (eval : Definition → Except Rejection Candidate) (before : List Definition)
    (d : Definition) (after : List Definition) (c : Candidate) : Prop where
  accepted : eval d = .ok c
  before : ∀ d' ∈ before, ∀ c', eval d' = .ok c' → c.summary.Better c'.summary
  after : ∀ d' ∈ after, ∀ c', eval d' = .ok c' → ¬ c'.summary.Better c.summary

/-- Without asking, the candidate is settled on. -/
def Settles (candidates : List Candidate) (c : Candidate) : Prop :=
  ∀ answers, ∃ how, Selection.resolve true candidates answers = ⟨[], answers, .ok (.selected c how)⟩

def accepted (eval : Definition → Except Rejection Candidate) (definitions : List Definition) :
    List Candidate :=
  definitions.filterMap fun d => (eval d).toOption

variable {eval : Definition → Except Rejection Candidate} {d : Definition}
  {definitions before after before' after' : List Definition} {c : Candidate}

theorem toOption_eq_some {e : Except ε α} {a : α} : e.toOption = some a ↔ e = .ok a := by
  cases e <;> simp [Except.toOption]

theorem mem_accepted : c ∈ accepted eval definitions ↔ ∃ d ∈ definitions, eval d = .ok c := by
  simp only [accepted, List.mem_filterMap, toOption_eq_some]

theorem accepted_append_cons (h : eval d = .ok c) :
    accepted eval (before ++ d :: after) = accepted eval before ++ c :: accepted eval after := by
  have hd : (eval d).toOption = some c := toOption_eq_some.mpr h
  simp only [accepted, List.filterMap_append, List.filterMap_cons, hd]

theorem accepted_split {cs cs' : List Candidate} (h : accepted eval definitions = cs ++ c :: cs') :
    ∃ before d after, definitions = before ++ d :: after ∧ eval d = .ok c ∧
      accepted eval before = cs ∧ accepted eval after = cs' := by
  obtain ⟨before, rest, rfl, rfl, hrest⟩ := List.filterMap_eq_append_iff.mp h
  obtain ⟨rejected, d, after, rfl, hrejected, hd, rfl⟩ := List.filterMap_eq_cons_iff.mp hrest
  refine ⟨before ++ rejected, d, after, (List.append_assoc _ _ _).symm, toOption_eq_some.mp hd, ?_, rfl⟩
  rw [accepted, List.filterMap_append, List.filterMap_eq_nil_iff.mpr hrejected, List.append_nil]

theorem firstBest_iff_wins (h : eval d = .ok c) :
    FirstBest (accepted eval before) c (accepted eval after) ↔ Wins eval before d after c := by
  constructor
  · rintro ⟨hbefore, hafter⟩
    exact ⟨h, fun d' hd' c' h' => hbefore c' (mem_accepted.mpr ⟨d', hd', h'⟩),
      fun d' hd' c' h' => hafter c' (mem_accepted.mpr ⟨d', hd', h'⟩)⟩
  · rintro ⟨-, hbefore, hafter⟩
    refine ⟨fun c' hc' => ?_, fun c' hc' => ?_⟩
    · obtain ⟨d', hd', h'⟩ := mem_accepted.mp hc'
      exact hbefore d' hd' c' h'
    · obtain ⟨d', hd', h'⟩ := mem_accepted.mp hc'
      exact hafter d' hd' c' h'

theorem head?_ranked_iff {ranked : List Candidate} (h : Ranked (accepted eval definitions) ranked) :
    ranked.head? = some c ↔
      ∃ before d after, definitions = before ++ d :: after ∧ Wins eval before d after c := by
  constructor
  · intro hc
    obtain ⟨cs, cs', hsplit, hbest⟩ := h.firstBest hc
    obtain ⟨before, d, after, rfl, hd, rfl, rfl⟩ := accepted_split hsplit
    exact ⟨before, d, after, rfl, (firstBest_iff_wins hd).mp hbest⟩
  · rintro ⟨before, d, after, rfl, hwins⟩
    rw [accepted_append_cons hwins.accepted] at h
    exact h.head? ((firstBest_iff_wins hwins.accepted).mpr hwins)

theorem Wins.of_sublist (h : Wins eval before d after c) (hbefore : before'.Sublist before)
    (hafter : after'.Sublist after) : Wins eval before' d after' c :=
  ⟨h.accepted, fun d' hd' => h.before d' (hbefore.subset hd'),
    fun d' hd' => h.after d' (hafter.subset hd')⟩

variable {t : Tree} {context : Template.Context} {options : Options} {tasks : List Task}

theorem candidates_detect (t : Tree) (context : Template.Context) (options : Options)
    (definitions : List Definition) (tasks : List Task) :
    (detect t context options definitions tasks).candidates =
      Candidate.sort (accepted (fun d => evaluate t context options d tasks) definitions) := by
  rw [detect, accepted, List.filterMap_map]
  rfl

theorem sifts_detect (t : Tree) (context : Template.Context) (options : Options)
    (definitions : List Definition) (tasks : List Task) :
    Sifts (fun d => evaluate t context options d tasks) definitions
      (accepted (fun d => evaluate t context options d tasks) definitions)
      (detect t context options definitions tasks).rejected := by
  induction definitions with
  | nil => exact .nil
  | cons d ds ih =>
    cases h : evaluate t context options d tasks with
    | ok c =>
      have hsifts : Sifts (fun d => evaluate t context options d tasks) (d :: ds) (c :: _) _ := .accepted h ih
      simpa [accepted, detect, h, Except.toOption] using hsifts
    | error r =>
      have hsifts : Sifts (fun d => evaluate t context options d tasks) (d :: ds) _ ((d.name, r) :: _) :=
        .rejected h ih
      simpa [accepted, detect, h, Except.toOption] using hsifts

theorem settles_iff {candidates : List Candidate} : Settles candidates c ↔ candidates.head? = some c := by
  match candidates with
  | [] => simp [Settles, Selection.resolve]
  | [_] => simp [Settles, Selection.resolve]
  | _ :: _ :: _ => simp [Settles, Selection.resolve]

theorem settles_detect_iff : Settles (detect t context options definitions tasks).candidates c ↔
    ∃ before d after, definitions = before ++ d :: after ∧
      Wins (fun d => evaluate t context options d tasks) before d after c := by
  rw [settles_iff, candidates_detect, head?_ranked_iff (ranked_sort _)]

theorem exists_settles_detect_iff :
    (∃ c, Settles (detect t context options definitions tasks).candidates c) ↔
      ∃ d ∈ definitions, ∃ c, evaluate t context options d tasks = .ok c := by
  constructor
  · rintro ⟨c, hc⟩
    obtain ⟨before, d, after, rfl, hwins⟩ := settles_detect_iff.mp hc
    exact ⟨d, by simp, c, hwins.accepted⟩
  · rintro ⟨d, hd, c, hc⟩
    have hmem : c ∈ (detect t context options definitions tasks).candidates := by
      rw [candidates_detect]
      exact (ranked_sort _).perm.mem_iff.mpr (mem_accepted.mpr ⟨d, hd, hc⟩)
    obtain ⟨best, hbest⟩ := Option.isSome_iff_exists.mp
      (List.isSome_head?.mpr (List.ne_nil_of_mem hmem))
    exact ⟨best, settles_iff.mpr hbest⟩

/-- Ranking is a total preorder in which only equal summaries tie. A detection has one candidate or
rejection for each definition, and ranks the candidates. What is settled on without asking is the
winner, whichever of the other definitions are left out; it is missing only if all are rejected. -/
theorem detection_ranks (t : Tree) (context : Template.Context) (options : Options)
    (definitions : List Definition) (tasks : List Task) :
    ((∀ a : Summary, a.rank a ≠ .gt) ∧ (∀ a b : Summary, a.rank b ≠ .gt ∨ b.rank a ≠ .gt) ∧
      (∀ a b c : Summary, a.rank b ≠ .gt → b.rank c ≠ .gt → a.rank c ≠ .gt) ∧
      (∀ a b : Summary, a.rank b = .eq ↔ a = b) ∧ (∀ a b : Summary, a.rank b = .lt ↔ a.Better b) ∧
      ∀ a b : Summary, a.rank b = .gt ↔ b.Better a) ∧
    (∃ accepted,
      Sifts (fun d => evaluate t context options d tasks) definitions accepted
        (detect t context options definitions tasks).rejected ∧
      Ranked accepted (detect t context options definitions tasks).candidates) ∧
    (∀ c, Settles (detect t context options definitions tasks).candidates c ↔
      ∃ before d after, definitions = before ++ d :: after ∧
        Wins (fun d => evaluate t context options d tasks) before d after c) ∧
    ((∃ c, Settles (detect t context options definitions tasks).candidates c) ↔
      ∃ d ∈ definitions, ∃ c, evaluate t context options d tasks = .ok c) ∧
    ∀ before d after c, definitions = before ++ d :: after →
      Wins (fun d => evaluate t context options d tasks) before d after c →
      ∀ before' after', before'.Sublist before → after'.Sublist after →
        Settles (detect t context options (before' ++ d :: after') tasks).candidates c := by
  refine ⟨⟨Summary.rank_self, Summary.rank_total, fun _ _ _ => Summary.rank_trans,
      fun _ _ => Summary.rank_eq_eq, fun _ _ => Summary.rank_eq_lt, fun _ _ => Summary.rank_eq_gt⟩,
    ⟨_, sifts_detect t context options definitions tasks, ?_⟩, fun c => settles_detect_iff, ?_, ?_⟩
  · rw [candidates_detect]
    exact ranked_sort _
  · exact exists_settles_detect_iff
  · rintro before d after c - hwins before' after' hbefore hafter
    exact settles_detect_iff.mpr ⟨before', d, after', rfl, hwins.of_sublist hbefore hafter⟩

end Detection

end ContestTests
