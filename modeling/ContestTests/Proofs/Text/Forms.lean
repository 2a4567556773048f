import ContestTests.Proofs.Text.Lowering

/-!
# Characters with several lower-case forms

Lower-casing and folding both ignore case, but folding brings more characters together: `ſ` is a lower-case
letter of its own and folds to `s`. A character folds as its lower-case form does, and except for those
that fold to one of `severalForms`, characters that fold together have the same lower-case form.
-/

namespace ContestTests.Text

variable {c d : Char} {run : CaseRun}

/-- The letters to which another lower-case letter folds. -/
def severalForms : List Char :=
  ['s', 'ΐ', 'ΰ', 'β', 'ε', 'θ', 'ι', 'κ', 'μ', 'π', 'ρ', 'σ', 'φ', 'в', 'д', 'о', 'с', 'т', 'ъ', 'ѣ', 'ꙋ', 'ṡ', 'ﬆ']

-- ---------------------------------------------------------------------------
-- The table
-- ---------------------------------------------------------------------------

/-- The run moves Cherokee letters, the only ones whose lower-case forms fold to capitals. -/
def CaseRun.isCherokee (run : CaseRun) : Bool :=
  0x13A0 ≤ run.first && run.last ≤ 0x13F5 || 0x13F8 ≤ run.first && run.last ≤ 0x13FD ||
    0xAB70 ≤ run.first && run.last ≤ 0xABBF

def cherokee (i : Nat) : Char := Char.ofNat (0x13A0 + i)

def smallCherokee (i : Nat) : Char := Char.ofNat (if i < 80 then 0xAB70 + i else 0x13A8 + i)

theorem fold_cherokee : ∀ i < 86, fold (cherokee i) = cherokee i ∧ lowerSingle (cherokee i) = smallCherokee i ∧
    fold (smallCherokee i) = cherokee i := by
  decide

theorem exists_cherokee (hrun : run.isCherokee) (hcov : run.covers c.toNat) :
    ∃ i < 86, c = cherokee i ∨ c = smallCherokee i := by
  simp only [CaseRun.isCherokee, Bool.or_eq_true, Bool.and_eq_true, decide_eq_true_eq] at hrun
  simp only [CaseRun.covers, Bool.and_eq_true, decide_eq_true_eq] at hcov
  rw [← Char.ofNat_toNat c]
  rcases hrun with (⟨hfirst, hlast⟩ | ⟨hfirst, hlast⟩) | ⟨hfirst, hlast⟩
  · refine ⟨c.toNat - 0x13A0, by omega, .inl ?_⟩
    rw [cherokee, Nat.add_sub_cancel' (by omega)]
  · refine ⟨c.toNat - 0x13A8, by omega, .inr ?_⟩
    rw [smallCherokee, if_neg (by omega), Nat.add_sub_cancel' (by omega)]
  · refine ⟨c.toNat - 0xAB70, by omega, .inr ?_⟩
    rw [smallCherokee, if_pos (by omega), Nat.add_sub_cancel' (by omega)]

/-- Folding a Cherokee letter and lower-casing it undo each other. -/
theorem turnsBack_of_covers (hrun : run.isCherokee) (hcov : run.covers c.toNat) :
    fold (lowerSingle c) = fold c ∧ lowerSingle (fold c) = lowerSingle c := by
  obtain ⟨i, hi, hc⟩ := exists_cherokee hrun hcov
  obtain ⟨hfold, hlower, hback⟩ := fold_cherokee i hi
  rcases hc with rfl | rfl
  · rw [hlower, hback, hfold, hlower]
    exact ⟨rfl, rfl⟩
  · have hsmall : lowerSingle (smallCherokee i) = smallCherokee i := by rw [← hlower, lowerSingle_lowerSingle]
    rw [hsmall, hback, hlower]
    exact ⟨rfl, rfl⟩

def ordinaryRuns : List CaseRun := lowerRuns.filter fun run => !run.isCherokee

/-- Apart from Cherokee letters folding goes no further where lower-casing starts, nor where it ends. -/
theorem ordinaryRuns_avoid : allBits CaseRun.sources ordinaryRuns &&& allBits CaseRun.sources foldRuns = 0 ∧
    allBits CaseRun.targets ordinaryRuns &&& allBits CaseRun.sources foldRuns = 0 := by
  decide +kernel

/-- Folding goes further to the letters of several forms. -/
theorem foldRuns_severalForms : (foldRuns.all fun run => run.isCherokee ||
    run.sources.all fun n => severalForms.contains (Char.ofNat (run.target n))) = true := by
  decide

theorem fold_of_not_covered (h : ∀ run ∈ foldRuns, ¬run.covers c.toNat) : fold c = lowerSingle c :=
  (fold_cases_foldRuns c).resolve_left fun ⟨run, hr, hcov, _⟩ => h run hr hcov

theorem fold_mem_severalForms (hrun : run ∈ foldRuns) (hcherokee : run.isCherokee = false)
    (hcov : run.covers c.toNat) : Char.ofNat (run.target c.toNat) ∈ severalForms := by
  have hall := List.all_eq_true.mp foldRuns_severalForms run hrun
  rw [hcherokee, Bool.false_or, List.all_eq_true] at hall
  exact List.contains_iff_mem.mp (hall c.toNat (mem_sources hcov))

-- ---------------------------------------------------------------------------
-- Lower-case forms
-- ---------------------------------------------------------------------------

theorem fold_lowerSingle (c : Char) : fold (lowerSingle c) = fold c := by
  rcases lowerSingle_cases c with hsame | ⟨run, hr, hcov, htarget⟩
  · rw [hsame]
  cases hcherokee : run.isCherokee with
  | true => exact (turnsBack_of_covers hcherokee hcov).1
  | false =>
    have hordinary : run ∈ ordinaryRuns := List.mem_filter.mpr ⟨hr, by rw [hcherokee]; rfl⟩
    have htoNat := toNat_target (List.mem_append_right _ hr) hcov
    rw [htarget] at htoNat
    have hsource : fold c = lowerSingle c :=
      fold_of_not_covered (not_covers_of_bits ordinaryRuns_avoid.1 hordinary (mem_sources hcov))
    have hfurther : fold (lowerSingle c) = lowerSingle (lowerSingle c) :=
      fold_of_not_covered (htoNat ▸ not_covers_of_bits ordinaryRuns_avoid.2 hordinary (mem_targets hcov))
    rw [hfurther, lowerSingle_lowerSingle, hsource]

theorem fold_of_lowerChar (h : lowerChar c = [d]) : fold d = fold c := by
  obtain ⟨-, rfl⟩ := lowerChar_eq_singleton_iff.mp h
  exact fold_lowerSingle c

/-- The capital letter that becomes two characters folds with nothing else. -/
theorem fold_eq_dotted_iff : fold c = 'İ' ↔ c = 'İ' := by
  constructor
  · intro h
    rcases fold_cases c with hsame | hstep
    · rw [← hsame, h]
    · exact absurd (h ▸ hstep) (not_stepsTo_dotted c)
  · rintro rfl
    rfl

theorem eq_dotted_iff_of_fold (h : fold d = fold c) : d = 'İ' ↔ c = 'İ' := by
  rw [← fold_eq_dotted_iff, h, fold_eq_dotted_iff]

theorem lowerSingle_fold (h : fold c ∉ severalForms) : lowerSingle (fold c) = lowerSingle c := by
  rcases fold_cases_foldRuns c with ⟨run, hr, hcov, htarget⟩ | hlower
  · cases hcherokee : run.isCherokee with
    | true => exact (turnsBack_of_covers hcherokee hcov).2
    | false => exact absurd (htarget ▸ fold_mem_severalForms hr hcherokee hcov) h
  · rw [hlower, lowerSingle_lowerSingle]

/-- Characters that fold together, and to no letter of several forms, have one lower-case form. -/
theorem lowerChar_eq_of_fold (h : fold c ∉ severalForms) (hd : fold d = fold c) : lowerChar d = lowerChar c := by
  have hlower : lowerSingle d = lowerSingle c := by rw [← lowerSingle_fold h, ← hd, lowerSingle_fold (hd ▸ h)]
  by_cases hc : c = 'İ'
  · rw [hc, (eq_dotted_iff_of_fold hd).mpr hc]
  · have hne : d ≠ 'İ' := fun he => hc ((eq_dotted_iff_of_fold hd).mp he)
    rw [lowerChar, lowerChar, if_neg hc, if_neg hne, hlower]

/-- What folds with a lower-case letter has a lower-case form that folds with it too. -/
theorem exists_form (hc : lowerChar c = [c]) (h : fold d = fold c) :
    ∃ form, lowerChar d = [form] ∧ lowerChar form = [form] ∧ fold form = fold c := by
  have hd : d ≠ 'İ' := fun he => (lowerChar_eq_singleton_iff.mp hc).1 ((eq_dotted_iff_of_fold h).mp he)
  have hform : lowerChar d = [lowerSingle d] := lowerChar_eq_singleton_iff.mpr ⟨hd, rfl⟩
  have hmem : lowerSingle d ∈ lowerChar d := hform ▸ List.mem_singleton_self _
  exact ⟨lowerSingle d, hform, lowerChar_of_mem hmem, (fold_lowerSingle d).trans h⟩

def isFormOf (k d : Char) : Bool := fold d == k && lowerChar d == [d] && !isBlank d

theorem isFormOf_iff {k : Char} : isFormOf k d ↔ fold d = k ∧ lowerChar d = [d] ∧ isBlank d = false := by
  simp [isFormOf, and_assoc]

theorem severalForms_otherForm : (severalForms.all fun k => isFormOf k k &&
    foldRuns.any fun run => isFormOf k (Char.ofNat run.first) && Char.ofNat run.first != k) = true := by
  decide

/-- A letter of several forms folds with a lower-case letter that is not its lower-case form. -/
theorem exists_otherForm (h : fold c ∈ severalForms) :
    ∃ d, fold d = fold c ∧ lowerChar d = [d] ∧ isBlank d = false ∧ lowerChar c ≠ [d] := by
  obtain ⟨hself, hother⟩ := Bool.and_eq_true_iff.mp (List.all_eq_true.mp severalForms_otherForm (fold c) h)
  obtain ⟨run, -, hrun⟩ := List.any_eq_true.mp hother
  obtain ⟨hrun, hne⟩ := Bool.and_eq_true_iff.mp hrun
  obtain ⟨hfold, hlower, hblank⟩ := isFormOf_iff.mp hself
  obtain ⟨hd, hform, hdblank⟩ := isFormOf_iff.mp hrun
  by_cases hc : lowerChar c = [fold c]
  · refine ⟨Char.ofNat run.first, hd, hform, hdblank, fun he => bne_iff_ne.mp hne ?_⟩
    exact List.singleton_inj.mp (he.symm.trans hc)
  · exact ⟨fold c, hfold, hlower, hblank, hc⟩

end ContestTests.Text
