import ContestTests.Text.Case

/-!
# Characters that fold together

`orbit` lists exactly the characters with the same representative, so being in a folded set is a
matter of representatives. Digits fold with nothing but themselves.
-/

namespace ContestTests.Text

/-- Where the runs lead: to characters, and to none before `:`. -/
def CaseRun.LeadsToChars (run : CaseRun) : Prop :=
  0x39 < run.first + run.shift ∧
    (run.last + run.shift < 0xD800 ∨ 0xDFFF < run.first + run.shift ∧ run.last + run.shift < 0x110000)

instance (run : CaseRun) : Decidable run.LeadsToChars := by
  unfold CaseRun.LeadsToChars
  infer_instance

theorem runs_leadToChars : ∀ run ∈ foldRuns ++ lowerRuns, run.LeadsToChars := by decide +kernel

theorem runTarget_eq_some (h : runTarget runs n = some m) :
    ∃ run ∈ runs, run.covers n ∧ run.target n = m := by
  obtain ⟨run, hf, rfl⟩ := Option.map_eq_some_iff.mp h
  exact ⟨run, List.mem_of_find?_eq_some hf, by simpa using List.find?_some hf, rfl⟩

def StepsTo (c k : Char) : Prop :=
  ∃ run ∈ foldRuns ++ lowerRuns, run.covers c.toNat ∧ Char.ofNat (run.target c.toNat) = k

theorem toNat_stepsTo {run : CaseRun} (hr : run ∈ foldRuns ++ lowerRuns) (hc : run.covers n) :
    ((Char.ofNat (run.target n)).toNat : Int) = n + run.shift ∧ 0x39 < n + run.shift := by
  have hl := runs_leadToChars run hr
  simp only [CaseRun.covers, Bool.and_eq_true, decide_eq_true_eq] at hc
  simp only [CaseRun.LeadsToChars] at hl
  have hpos : 0x39 < (n : Int) + run.shift := by omega
  have hvalid : (run.target n).isValidChar := by
    simp only [CaseRun.target, Nat.isValidChar]
    omega
  refine ⟨?_, hpos⟩
  have htarget : (Char.ofNat (run.target n)).toNat = run.target n := by
    rw [Char.ofNat, dif_pos hvalid]
    rfl
  rw [htarget, CaseRun.target]
  omega

theorem toNat_target {run : CaseRun} (hr : run ∈ foldRuns ++ lowerRuns) (hc : run.covers n) :
    (Char.ofNat (run.target n)).toNat = run.target n := by
  obtain ⟨htarget, -⟩ := toNat_stepsTo hr hc
  rw [CaseRun.target] at htarget ⊢
  omega

theorem toLower_cases : ∀ n < 0x80, (Char.ofNat n).toLower = Char.ofNat n ∨
    0x41 ≤ n ∧ n ≤ 0x5A ∧ (Char.ofNat n).toLower = Char.ofNat (n + 32) := by
  decide

theorem lowerSingle_cases (c : Char) : lowerSingle c = c ∨
    ∃ run ∈ lowerRuns, run.covers c.toNat ∧ Char.ofNat (run.target c.toNat) = lowerSingle c := by
  rw [lowerSingle]
  split
  · rename_i hc
    rcases toLower_cases c.toNat hc with h | ⟨hfirst, hlast, h⟩
    · exact .inl (by simpa using h)
    · rw [Char.ofNat_toNat] at h
      refine .inr ⟨⟨0x41, 0x5A, 1, 32⟩, List.mem_cons_self, ?_, ?_⟩
      · simp [CaseRun.covers, hfirst, hlast, Nat.mod_one]
      · rw [h]
        rfl
  · cases hl : runTarget lowerRuns c.toNat with
    | none => exact .inl rfl
    | some n =>
      obtain ⟨run, hr, hcov, rfl⟩ := runTarget_eq_some hl
      exact .inr ⟨run, hr, hcov, rfl⟩

theorem fold_cases_foldRuns (c : Char) :
    (∃ run ∈ foldRuns, run.covers c.toNat ∧ Char.ofNat (run.target c.toNat) = fold c) ∨ fold c = lowerSingle c := by
  rw [fold, lowerSingle]
  split
  · exact .inr rfl
  · cases hf : runTarget foldRuns c.toNat with
    | some n =>
      obtain ⟨run, hr, hcov, rfl⟩ := runTarget_eq_some hf
      exact .inl ⟨run, hr, hcov, rfl⟩
    | none => exact .inr rfl

theorem fold_cases (c : Char) : fold c = c ∨ StepsTo c (fold c) := by
  rcases fold_cases_foldRuns c with ⟨run, hr, h⟩ | hlower
  · exact .inr ⟨run, List.mem_append_left _ hr, h⟩
  · rw [hlower]
    exact (lowerSingle_cases c).imp_right fun ⟨run, hr, h⟩ => ⟨run, List.mem_append_right _ hr, h⟩

theorem mem_foldSources (h : StepsTo c k) : c.toNat ∈ foldSources k.toNat := by
  obtain ⟨run, hr, hc, rfl⟩ := h
  obtain ⟨htarget, -⟩ := toNat_stepsTo hr hc
  have hsource : run.source (Char.ofNat (run.target c.toNat)).toNat = c.toNat := by
    rw [CaseRun.source]
    omega
  exact List.mem_map.mpr ⟨run, List.mem_filter.mpr ⟨hr, by rw [hsource]; exact hc⟩, hsource⟩

theorem mem_orbit_iff : c ∈ orbit x ↔ fold c = fold x := by
  refine ⟨fold_of_mem_orbit, fun h => List.mem_filter.mpr ⟨?_, by simpa using h⟩⟩
  rcases fold_cases c with hc | hc
  · rw [← h, hc]
    exact List.mem_cons_of_mem _ List.mem_cons_self
  · refine List.mem_cons_of_mem _ (List.mem_cons_of_mem _ (List.mem_map.mpr ⟨c.toNat, ?_, ?_⟩))
    · exact h ▸ mem_foldSources hc
    · exact Char.ofNat_toNat c

theorem fold_eq_digit (h : (fold c).toNat ≤ 0x39) : fold c = c := by
  rcases fold_cases c with hc | ⟨run, hr, hcov, hk⟩
  · exact hc
  · obtain ⟨htarget, hpos⟩ := toNat_stepsTo hr hcov
    rw [hk] at htarget
    omega

/-- Digits, and the signs before them, are the only characters that fold to themselves. -/
theorem eq_of_fold_eq {d e : Char} (hd : d.toNat ≤ 0x39) (h : fold e = d) : e = d :=
  (fold_eq_digit (h ▸ hd)).symm.trans h

def SameFold (s t : List Char) : Prop := s.map fold = t.map fold

theorem SameFold.symm {s t : List Char} (h : SameFold s t) : SameFold t s := Eq.symm h

theorem SameFold.trans {s t u : List Char} (h : SameFold s t) (h' : SameFold t u) : SameFold s u := Eq.trans h h'

theorem SameFold.length_eq {s t : List Char} (h : SameFold s t) : s.length = t.length := by
  simpa using congrArg List.length h

theorem sameFold_nil {s : List Char} : SameFold s [] ↔ s = [] := by
  simp [SameFold]

theorem sameFold_cons {c : Char} {s t : List Char} :
    SameFold s (c :: t) ↔ ∃ d s', s = d :: s' ∧ fold d = fold c ∧ SameFold s' t := by
  cases s with
  | nil => simp [SameFold]
  | cons d s =>
    simp only [SameFold, List.map_cons, List.cons.injEq]
    constructor
    · rintro ⟨hd, hs⟩
      exact ⟨d, s, ⟨rfl, rfl⟩, hd, hs⟩
    · rintro ⟨_, _, ⟨rfl, rfl⟩, hd, hs⟩
      exact ⟨hd, hs⟩

theorem sameFold_append_iff {s a b : List Char} :
    SameFold s (a ++ b) ↔ ∃ a' b', s = a' ++ b' ∧ SameFold a' a ∧ SameFold b' b := by
  rw [SameFold, List.map_append]
  exact List.map_eq_append_iff

theorem exists_fold_of_mem {s t : List Char} {c : Char} (h : SameFold s t) (hc : c ∈ t) : ∃ d ∈ s, fold d = fold c := by
  have hmem : fold c ∈ s.map fold := by
    rw [h]
    exact List.mem_map_of_mem hc
  exact List.mem_map.mp hmem

end ContestTests.Text
