import ContestTests.Proofs.Text.Folding
import ContestTests.Template.Context
import ContestTests.Text.Lower

/-!
# Letters in lower case

Texts that differ in ASCII case only fold together. No run of the lower-case table leads to a capital letter,
so lower-casing once is enough; the letters of an alphabet are therefore their own lower-case forms, and each
has its place.
-/

namespace ContestTests.Text

variable {c d : Char} {run : CaseRun} {runs others : List CaseRun} {f : CaseRun → List Nat} {n : Nat} {numbers : List Nat}

-- ---------------------------------------------------------------------------
-- ASCII
-- ---------------------------------------------------------------------------

theorem toLower_of_not_ascii {c : Char} (hc : ¬c.toNat < 0x80) : c.toLower = c := by
  unfold Char.toLower
  split
  · rename_i h
    simp only [UInt32.le_iff_toNat_le, ge_iff_le] at h
    have hle : c.toNat ≤ 0x5A := h.2
    omega
  · rfl

theorem lowerChar_ascii : ∀ n < 0x80, lowerChar (Char.ofNat n).toLower = lowerChar (Char.ofNat n) := by decide

theorem lowerChar_toLower (c : Char) : lowerChar c.toLower = lowerChar c := by
  by_cases hc : c.toNat < 0x80
  · simpa using lowerChar_ascii c.toNat hc
  · rw [toLower_of_not_ascii hc]

theorem fold_ascii : ∀ n < 0x80, fold (Char.ofNat n).toLower = fold (Char.ofNat n) := by decide

theorem fold_toLower (c : Char) : fold c.toLower = fold c := by
  by_cases hc : c.toNat < 0x80
  · simpa using fold_ascii c.toNat hc
  · rw [toLower_of_not_ascii hc]

theorem sameIgnoringAsciiCase_iff {s t : List Char} :
    sameIgnoringAsciiCase s t ↔ s.map Char.toLower = t.map Char.toLower := beq_iff_eq

theorem sameIgnoringAsciiCase_symm {s t : List Char} (h : sameIgnoringAsciiCase s t) : sameIgnoringAsciiCase t s :=
  sameIgnoringAsciiCase_iff.mpr (sameIgnoringAsciiCase_iff.mp h).symm

theorem length_of_sameIgnoringAsciiCase {s t : List Char} (h : sameIgnoringAsciiCase s t) : s.length = t.length := by
  simpa using congrArg List.length (sameIgnoringAsciiCase_iff.mp h)

theorem exists_append_sameCase {a b s : List Char} (h : sameIgnoringAsciiCase (a ++ b) s) :
    ∃ a' b', s = a' ++ b' ∧ sameIgnoringAsciiCase a a' ∧ sameIgnoringAsciiCase b b' := by
  rw [sameIgnoringAsciiCase_iff, List.map_append] at h
  obtain ⟨a', b', rfl, ha, hb⟩ := List.map_eq_append_iff.mp h.symm
  exact ⟨a', b', rfl, sameIgnoringAsciiCase_iff.mpr ha.symm, sameIgnoringAsciiCase_iff.mpr hb.symm⟩

theorem sameFold_of_sameIgnoringAsciiCase {s t : List Char} (h : sameIgnoringAsciiCase s t) : SameFold s t := by
  have hmap (s : List Char) : s.map fold = (s.map Char.toLower).map fold := by
    rw [List.map_map]
    exact List.map_congr_left fun c _ => (fold_toLower c).symm
  rw [SameFold, hmap s, hmap t, beq_iff_eq.mp h]

theorem flatMap_lowerChar_sameCase {s t : List Char} (h : sameIgnoringAsciiCase s t) :
    s.flatMap lowerChar = t.flatMap lowerChar := by
  have hlower (s : List Char) : s.flatMap lowerChar = (s.map Char.toLower).flatMap lowerChar := by
    simp only [List.flatMap_map, lowerChar_toLower]
  rw [hlower s, hlower t, sameIgnoringAsciiCase_iff.mp h]

-- ---------------------------------------------------------------------------
-- The table
-- ---------------------------------------------------------------------------

def CaseRun.sources (run : CaseRun) : List Nat :=
  (List.range ((run.last - run.first) / run.step + 1)).map fun i => run.first + run.step * i

def CaseRun.targets (run : CaseRun) : List Nat := run.sources.map run.target

theorem mem_sources (h : run.covers n) : n ∈ run.sources := by
  simp only [CaseRun.covers, Bool.and_eq_true, decide_eq_true_eq, beq_iff_eq] at h
  obtain ⟨⟨hfirst, hlast⟩, hstep⟩ := h
  refine List.mem_map.mpr ⟨(n - run.first) / run.step, List.mem_range.mpr ?_, ?_⟩
  · exact Nat.lt_succ_of_le (Nat.div_le_div_right (Nat.sub_le_sub_right hlast run.first))
  · have hdiv := Nat.div_add_mod (n - run.first) run.step
    omega

theorem mem_targets (h : run.covers n) : run.target n ∈ run.targets := List.mem_map_of_mem (mem_sources h)

/-- A set of numbers as the one number that has these bits, so that sets are compared at once. -/
def bitsOf (numbers : List Nat) : Nat := numbers.foldr (fun n bits => 1 <<< n ||| bits) 0

def allBits (f : CaseRun → List Nat) (runs : List CaseRun) : Nat :=
  runs.foldr (fun run bits => bitsOf (f run) ||| bits) 0

theorem testBit_bitsOf (h : n ∈ numbers) : (bitsOf numbers).testBit n := by
  induction numbers with
  | nil => cases h
  | cons k numbers ih =>
    rw [bitsOf, List.foldr_cons, Nat.testBit_or, Bool.or_eq_true]
    rcases List.mem_cons.mp h with rfl | h
    · exact .inl (by rw [Nat.one_shiftLeft, Nat.testBit_two_pow_self])
    · exact .inr (ih h)

theorem testBit_allBits (hrun : run ∈ runs) (hn : n ∈ f run) : (allBits f runs).testBit n := by
  induction runs with
  | nil => cases hrun
  | cons first runs ih =>
    rw [allBits, List.foldr_cons, Nat.testBit_or, Bool.or_eq_true]
    rcases List.mem_cons.mp hrun with rfl | hrun
    · exact .inl (testBit_bitsOf hn)
    · exact .inr (ih hrun)

theorem not_covers_of_bits (h : allBits f runs &&& allBits CaseRun.sources others = 0) (hrun : run ∈ runs)
    (hn : n ∈ f run) : ∀ other ∈ others, ¬other.covers n := by
  intro other hother hcov
  have hboth : (allBits f runs &&& allBits CaseRun.sources others).testBit n := by
    rw [Nat.testBit_and, Bool.and_eq_true]
    exact ⟨testBit_allBits hrun hn, testBit_allBits hother (mem_sources hcov)⟩
  rw [h, Nat.zero_testBit] at hboth
  cases hboth

theorem lowerRuns_avoid : allBits CaseRun.targets lowerRuns &&& allBits CaseRun.sources lowerRuns = 0 := by
  decide +kernel

theorem runs_avoid_dotted : (allBits CaseRun.targets (foldRuns ++ lowerRuns)).testBit 0x130 = false := by
  decide +kernel

theorem not_stepsTo_dotted (c : Char) : ¬StepsTo c 'İ' := by
  rintro ⟨run, hr, hcov, htarget⟩
  have hbit := testBit_allBits hr (mem_targets hcov)
  rw [← toNat_target hr hcov, htarget] at hbit
  exact absurd (hbit.symm.trans runs_avoid_dotted) (by decide)

-- ---------------------------------------------------------------------------
-- Lower-case forms
-- ---------------------------------------------------------------------------

theorem lowerSingle_of_not_covered (h : ∀ run ∈ lowerRuns, ¬run.covers c.toNat) : lowerSingle c = c :=
  (lowerSingle_cases c).resolve_right fun ⟨run, hr, hcov, _⟩ => h run hr hcov

theorem lowerSingle_lowerSingle (c : Char) : lowerSingle (lowerSingle c) = lowerSingle c := by
  rcases lowerSingle_cases c with hsame | ⟨run, hr, hcov, htarget⟩
  · rw [hsame, hsame]
  · have htoNat := toNat_target (List.mem_append_right _ hr) hcov
    rw [htarget] at htoNat
    exact lowerSingle_of_not_covered (htoNat ▸ not_covers_of_bits lowerRuns_avoid hr (mem_targets hcov))

theorem eq_dotted_of_lowerSingle (h : lowerSingle c = 'İ') : c = 'İ' := by
  rcases lowerSingle_cases c with hsame | ⟨run, hr, hstep⟩
  · rw [← hsame, h]
  · exact absurd (h ▸ ⟨run, List.mem_append_right _ hr, hstep⟩) (not_stepsTo_dotted c)

theorem lowerChar_eq_singleton_iff : lowerChar c = [d] ↔ c ≠ 'İ' ∧ lowerSingle c = d := by
  rw [lowerChar]
  split
  · rename_i hc
    simp [hc]
  · rename_i hc
    simp [hc]

theorem lowerChar_of_mem (h : c ∈ lowerChar d) : lowerChar c = [c] := by
  rw [lowerChar] at h
  split at h
  · rcases List.mem_cons.mp h with rfl | h
    · rfl
    · obtain rfl := List.mem_singleton.mp h
      rfl
  · rename_i hd
    obtain rfl := List.mem_singleton.mp h
    exact lowerChar_eq_singleton_iff.mpr ⟨fun he => hd (eq_dotted_of_lowerSingle he), lowerSingle_lowerSingle d⟩

theorem lowerChar_ne_nil (c : Char) : lowerChar c ≠ [] := by
  unfold lowerChar
  split <;> exact List.cons_ne_nil _ _

theorem lower_ne_nil {s : List Char} (h : s ≠ []) : lower s ≠ [] := by
  obtain ⟨c, rest, rfl⟩ := List.exists_cons_of_ne_nil h
  rw [lower, lowerFrom]
  refine List.append_ne_nil_of_left_ne_nil ?_ _
  split
  · exact List.cons_ne_nil _ _
  · exact lowerChar_ne_nil c

end ContestTests.Text

-- ---------------------------------------------------------------------------
-- Alphabets
-- ---------------------------------------------------------------------------

namespace ContestTests.Template.Alphabet

open ContestTests.Text

variable {s : String} {c : Char} {n : Nat}

theorem nodup_eraseDups : ∀ s : List Char, s.eraseDups.Nodup
  | [] => List.nodup_nil
  | c :: s => by
    have hrest := nodup_eraseDups (s.filter fun d => !d == c)
    rw [List.eraseDups_cons]
    refine List.nodup_cons.mpr ⟨fun h => ?_, hrest⟩
    simpa using (List.mem_filter.mp (List.mem_eraseDups.mp h)).2
termination_by s => s.length
decreasing_by exact Nat.lt_succ_of_le (List.length_filter_le _ s)

theorem nodup_letters (s : String) : (ofString s).letters.Nodup := nodup_eraseDups _

theorem lowerChar_letter (h : c ∈ (ofString s).letters) : lowerChar c = [c] := by
  obtain ⟨d, -, hc⟩ := List.mem_flatMap.mp (List.mem_filter.mp (List.mem_eraseDups.mp h)).1
  exact lowerChar_of_mem hc

theorem position?_letter (hn : 1 ≤ n) (h : (ofString s).letters[n - 1]? = some c) :
    (ofString s).position? [c] = some n := by
  obtain ⟨hlt, rfl⟩ := List.getElem?_eq_some_iff.mp h
  have hlower := lowerChar_letter (List.getElem_mem hlt)
  have hplace : (ofString s).letters.idxOf? (ofString s).letters[n - 1] = some (n - 1) := by
    refine List.idxOf?_eq_some_iff.mpr ⟨hlt, rfl, fun j hj => ?_⟩
    exact List.pairwise_iff_getElem.mp (nodup_letters s) j (n - 1) (Nat.lt_trans hj hlt) hlt hj
  simp only [position?, List.flatMap_singleton, hlower, hplace, Option.map_some]
  rw [Nat.sub_add_cancel hn]

end ContestTests.Template.Alphabet
