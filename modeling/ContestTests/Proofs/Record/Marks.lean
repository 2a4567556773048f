import ContestTests.Proofs.Record.Sorting
import ContestTests.Proofs.Text.Lines
import Mathlib.Data.List.Dedup
import Mathlib.Data.List.Sort

/-!
# Groups told by marks

Sorting brings the records of a group together, so the next record alone tells whether a record is the last
of its group. Beside the records of a group stand marks of which the last one is a `1` and no other, and
the lines of the marks, cut behind every `1`, come in pieces as long as the groups.
-/

namespace ContestTests.Record

open ContestTests.Text

variable {g : Nat} {r : Record} {records run rest sorted : List Record} {gs : List Nat} {runs : Nat → List Record}

def groupNumbers (records : List Record) : List Nat := (records.map group).dedup.insertionSort (· ≤ ·)

def inGroup (g : Nat) (records : List Record) : List Record := records.filter fun r => r.group = g

/-- The marks beside the records of a group, in their order. -/
def marksOf (g : Nat) (records : List Record) (marks : List Int) : List Int :=
  ((records.zip marks).filter fun p => p.1.group = g).map Prod.snd

/-- What so many records of one group are marked with: a `1` at the last of them. -/
def groupMarks : Nat → List Int
  | 0 => []
  | n + 1 => List.replicate n (-1) ++ [1]

-- ---------------------------------------------------------------------------
-- Groups
-- ---------------------------------------------------------------------------

theorem mem_inGroup : r ∈ inGroup g records ↔ r ∈ records ∧ r.group = g := by
  simp [inGroup]

theorem inGroup_cons_same (h : r.group = g) : inGroup g (r :: records) = r :: inGroup g records :=
  List.filter_cons_of_pos (by simpa using h)

theorem inGroup_cons_other (h : r.group ≠ g) : inGroup g (r :: records) = inGroup g records :=
  List.filter_cons_of_neg (by simpa using h)

theorem length_inGroup_sort (g : Nat) (records : List Record) :
    (inGroup g (sort records)).length = (inGroup g records).length :=
  ((sort_perm records).filter _).length_eq

theorem mem_groupNumbers : g ∈ groupNumbers records ↔ ∃ r ∈ records, r.group = g := by
  rw [groupNumbers, (List.perm_insertionSort _ _).mem_iff, List.mem_dedup, List.mem_map]

theorem groupNumbers_increasing (records : List Record) : (groupNumbers records).Pairwise (· < ·) := by
  have hnodup : (groupNumbers records).Nodup :=
    (List.perm_insertionSort _ _).nodup_iff.mpr (List.nodup_dedup _)
  have hordered : (groupNumbers records).Pairwise (· ≤ ·) := List.pairwise_insertionSort (· ≤ ·) _
  exact hnodup.imp₂ (fun a b hne hle => Nat.lt_of_le_of_ne hle hne) hordered

theorem inGroup_ne_nil (h : g ∈ groupNumbers records) : inGroup g records ≠ [] := by
  obtain ⟨r, hr, hg⟩ := mem_groupNumbers.mp h
  exact List.ne_nil_of_mem (mem_inGroup.mpr ⟨hr, hg⟩)

theorem sort_groups_ordered (records : List Record) : (sort records).Pairwise fun a b => a.group ≤ b.group :=
  (sort_ordered records).imp fun h => by
    rw [notAfter_iff] at h
    omega

theorem inGroup_of_later (hsorted : (r :: records).Pairwise fun a b => a.group ≤ b.group) (h : g < r.group) :
    inGroup g (r :: records) = [] := by
  obtain ⟨hr, -⟩ := List.pairwise_cons.mp hsorted
  refine List.filter_eq_nil_iff.mpr fun s hs => ?_
  have hle : r.group ≤ s.group := (List.mem_cons.mp hs).elim (fun he => he ▸ Nat.le_refl _) (hr s)
  simpa using Nat.ne_of_gt (Nat.lt_of_lt_of_le h hle)

theorem inGroup_append_others (hsorted : sorted.Pairwise fun a b => a.group ≤ b.group)
    (hleast : ∀ r ∈ sorted, g ≤ r.group) :
    inGroup g sorted ++ sorted.filter (fun r => r.group ≠ g) = sorted := by
  induction sorted with
  | nil => rfl
  | cons r sorted ih =>
    obtain ⟨hle, hrest⟩ := List.forall_mem_cons.mp hleast
    by_cases hr : r.group = g
    · rw [inGroup_cons_same hr, List.filter_cons_of_neg (by simpa using hr), List.cons_append, ih hsorted.tail hrest]
    · have hnone := inGroup_of_later hsorted (Nat.lt_of_le_of_ne hle (Ne.symm hr))
      have hall : (r :: sorted).filter (fun s => s.group ≠ g) = r :: sorted := by
        refine List.filter_eq_self.mpr fun s hs => ?_
        simpa using List.filter_eq_nil_iff.mp hnone s hs
      rw [hnone, hall, List.nil_append]

/-- Sorted records are those of one group after the other. -/
theorem flatMap_inGroup (hgs : gs.Pairwise (· < ·)) (hsorted : sorted.Pairwise fun a b => a.group ≤ b.group)
    (hmem : ∀ r ∈ sorted, r.group ∈ gs) : gs.flatMap (inGroup · sorted) = sorted := by
  induction gs generalizing sorted with
  | nil =>
    have hnil : sorted = [] := List.eq_nil_iff_forall_not_mem.mpr fun r hr => List.not_mem_nil (hmem r hr)
    rw [hnil]
    rfl
  | cons g gs ih =>
    obtain ⟨hg, hgs⟩ := List.pairwise_cons.mp hgs
    have hleast : ∀ r ∈ sorted, g ≤ r.group := fun r hr =>
      (List.mem_cons.mp (hmem r hr)).elim (fun he => Nat.le_of_eq he.symm) fun h => Nat.le_of_lt (hg _ h)
    -- Later groups lose nothing when the records of the least one are taken away.
    have hothers : gs.flatMap (inGroup · sorted) = sorted.filter fun r => r.group ≠ g := by
      have hsame : ∀ g' ∈ gs, inGroup g' sorted = inGroup g' (sorted.filter fun r => r.group ≠ g) := by
        intro g' hg'
        have hne := hg g' hg'
        rw [inGroup, inGroup, List.filter_filter]
        refine List.filter_congr fun r _ => ?_
        by_cases hr : r.group = g'
        · simp [hr, Nat.ne_of_gt hne]
        · simp [hr]
      rw [List.flatMap_congr hsame]
      refine ih hgs (hsorted.filter _) fun r hr => ?_
      obtain ⟨hr, hne⟩ := List.mem_filter.mp hr
      exact (List.mem_cons.mp (hmem r hr)).resolve_left (of_decide_eq_true hne)
    rw [List.flatMap_cons, hothers, inGroup_append_others hsorted hleast]

-- ---------------------------------------------------------------------------
-- Marks
-- ---------------------------------------------------------------------------

theorem length_marks (records : List Record) : (marks records).length = records.length := by
  fun_induction marks records with
  | case1 => rfl
  | case2 => rfl
  | case3 r next more ih => exact congrArg (· + 1) ih

theorem getLast?_marks (h : records ≠ []) : (marks records).getLast? = some 1 := by
  fun_induction marks records with
  | case1 => exact absurd rfl h
  | case2 => rfl
  | case3 r next more ih => rw [List.getLast?_cons, ih (by simp), Option.getD_some]

theorem marks_append (hne : run ≠ []) (hrun : ∀ r ∈ run, r.group = g) (hrest : ∀ r ∈ rest, r.group ≠ g) :
    marks (run ++ rest) = groupMarks run.length ++ marks rest := by
  induction run with
  | nil => exact absurd rfl hne
  | cons r run ih =>
    obtain ⟨hr, hrun⟩ := List.forall_mem_cons.mp hrun
    cases run with
    | nil =>
      cases rest with
      | nil => rfl
      | cons next rest =>
        have hnext : next.group ≠ r.group := hr ▸ hrest next List.mem_cons_self
        rw [List.singleton_append, marks, if_neg hnext]
        rfl
    | cons next run =>
      have hnext : next.group = r.group := (hrun next List.mem_cons_self).trans hr.symm
      have hmarks := ih (by simp) hrun
      rw [List.cons_append] at hmarks
      rw [List.cons_append, List.cons_append, marks, if_pos hnext, hmarks]
      rfl

theorem marks_flatMap (hgs : gs.Pairwise (· < ·)) (hruns : ∀ g ∈ gs, runs g ≠ [] ∧ ∀ r ∈ runs g, r.group = g) :
    marks (gs.flatMap runs) = gs.flatMap fun g => groupMarks (runs g).length := by
  induction gs with
  | nil => rfl
  | cons g gs ih =>
    obtain ⟨hg, hgs⟩ := List.pairwise_cons.mp hgs
    obtain ⟨⟨hne, hrun⟩, hruns⟩ := List.forall_mem_cons.mp hruns
    have hrest : ∀ r ∈ gs.flatMap runs, r.group ≠ g := by
      intro r hr
      obtain ⟨g', hg', hr⟩ := List.mem_flatMap.mp hr
      rw [(hruns g' hg').2 r hr]
      exact Nat.ne_of_gt (hg g' hg')
    rw [List.flatMap_cons, List.flatMap_cons, marks_append hne hrun hrest, ih hgs hruns]

theorem marks_sort (records : List Record) :
    marks (sort records) = (groupNumbers records).flatMap fun g => groupMarks (inGroup g records).length := by
  have hsorted : (groupNumbers records).flatMap (inGroup · (sort records)) = sort records :=
    flatMap_inGroup (groupNumbers_increasing records) (sort_groups_ordered records) fun r hr =>
      mem_groupNumbers.mpr ⟨r, mem_sort.mp hr, rfl⟩
  have hruns : ∀ g ∈ groupNumbers records, inGroup g (sort records) ≠ [] ∧ ∀ r ∈ inGroup g (sort records), r.group = g := by
    intro g hg
    refine ⟨fun hnil => inGroup_ne_nil hg ?_, fun r hr => (mem_inGroup.mp hr).2⟩
    rw [← List.length_eq_zero_iff, ← length_inGroup_sort, hnil, List.length_nil]
  have hmarks := marks_flatMap (groupNumbers_increasing records) hruns
  rw [hsorted] at hmarks
  simpa only [length_inGroup_sort] using hmarks

theorem count_one_groupMarks {n : Nat} (h : n ≠ 0) : (groupMarks n).count 1 = 1 := by
  obtain ⟨n, rfl⟩ := Nat.exists_eq_succ_of_ne_zero h
  rw [groupMarks, List.count_append, List.count_replicate]
  rfl

theorem marksOf_cons_same {m : Int} {ms : List Int} (h : r.group = g) :
    marksOf g (r :: records) (m :: ms) = m :: marksOf g records ms := by
  simp [marksOf, h]

theorem marksOf_cons_other {m : Int} {ms : List Int} (h : r.group ≠ g) :
    marksOf g (r :: records) (m :: ms) = marksOf g records ms := by
  simp [marksOf, h]

theorem marksOf_marks (hsorted : sorted.Pairwise fun a b => a.group ≤ b.group) (g : Nat) :
    marksOf g sorted (marks sorted) = groupMarks (inGroup g sorted).length := by
  fun_induction marks sorted with
  | case1 => rfl
  | case2 r =>
    by_cases hr : r.group = g
    · rw [marksOf_cons_same hr, inGroup_cons_same hr]
      rfl
    · rw [marksOf_cons_other hr, inGroup_cons_other hr]
      rfl
  | case3 r next more ih =>
    obtain ⟨hle, hmore⟩ := List.pairwise_cons.mp hsorted
    have hrest := ih hmore
    by_cases hr : r.group = g
    · rw [marksOf_cons_same hr, inGroup_cons_same hr, hrest]
      by_cases hnext : next.group = r.group
      · rw [if_pos hnext, inGroup_cons_same (hnext.trans hr)]
        rfl
      · have hlater : g < next.group := hr ▸ Nat.lt_of_le_of_ne (hle next List.mem_cons_self) (Ne.symm hnext)
        rw [if_neg hnext, inGroup_of_later hmore hlater]
        rfl
    · rw [marksOf_cons_other hr, inGroup_cons_other hr, hrest]

-- ---------------------------------------------------------------------------
-- Lines
-- ---------------------------------------------------------------------------

/-- Values in pieces, each cut off behind the first value that ends one. -/
def cutAfter (ends : α → Bool) : List α → List (List α)
  | [] => []
  | a :: more =>
    if ends a then [a] :: cutAfter ends more
    else match cutAfter ends more with
      | [] => [[a]]
      | piece :: pieces => (a :: piece) :: pieces

theorem cutAfter_append {ends : α → Bool} {init more : List α} {last : α} (hinit : ∀ a ∈ init, ends a = false)
    (hlast : ends last) : cutAfter ends (init ++ last :: more) = (init ++ [last]) :: cutAfter ends more := by
  induction init with
  | nil => rw [List.nil_append, cutAfter, if_pos hlast, List.nil_append]
  | cons a init ih =>
    obtain ⟨ha, hinit⟩ := List.forall_mem_cons.mp hinit
    rw [List.cons_append, cutAfter, ha, ih hinit]
    rfl

def markLine (mark : Int) : List Char := ((if mark < 0 then "-" else "") ++ decimal mark.natAbs).toList

theorem mem_markLine {mark : Int} {c : Char} (h : c ∈ markLine mark) : c = '-' ∨ c.isDigit := by
  rw [markLine, String.toList_append, decimal, Nat.toList_repr] at h
  rcases List.mem_append.mp h with h | h
  · split at h
    · exact .inl (by simpa using h)
    · cases h
  · exact .inr (Nat.isDigit_of_mem_toDigits (by decide) (by decide) h)

theorem lines_renderMarks (ms : List Int) : lines (renderMarks ms).toList = ms.map markLine := by
  induction ms with
  | nil => rfl
  | cons m ms ih =>
    have hnot {c : Char} (hminus : c ≠ '-') (hdigit : c.isDigit = false) : c ∉ markLine m := fun hc => by
      rcases mem_markLine hc with hc | hc
      · exact hminus hc
      · rw [hdigit] at hc
        cases hc
    have htext : (renderMarks (m :: ms)).toList = markLine m ++ '\n' :: (renderMarks ms).toList := by
      simp [renderMarks, markLine, String.toList_append]
    have hreturn : dropReturn (markLine m) = markLine m :=
      if_neg fun hlast => hnot (by decide) (by decide) (List.mem_of_getLast? hlast)
    rw [htext, lines_ended (hnot (by decide) (by decide)), hreturn, ih, List.map_cons]

theorem cutAfter_groupMarks {size : Nat → Nat} (h : ∀ g ∈ gs, size g ≠ 0) :
    (cutAfter (· = ['1']) ((gs.flatMap fun g => groupMarks (size g)).map markLine)).map List.length = gs.map size := by
  induction gs with
  | nil => rfl
  | cons g gs ih =>
    obtain ⟨hg, hgs⟩ := List.forall_mem_cons.mp h
    obtain ⟨n, hn⟩ := Nat.exists_eq_succ_of_ne_zero hg
    have hlines : (groupMarks (size g)).map markLine = List.replicate n ['-', '1'] ++ [['1']] := by
      rw [hn, groupMarks, List.map_append, List.map_replicate]
      rfl
    have hcut (more : List (List Char)) : cutAfter (· = ['1']) (List.replicate n ['-', '1'] ++ ['1'] :: more) =
        (List.replicate n ['-', '1'] ++ [['1']]) :: cutAfter (· = ['1']) more := by
      refine cutAfter_append (fun line hline => ?_) rfl
      rw [List.eq_of_mem_replicate hline]
      rfl
    rw [List.flatMap_cons, List.map_append, hlines, List.append_assoc, List.singleton_append, hcut, List.map_cons, ih hgs,
      List.map_cons, hn, List.length_append, List.length_replicate]
    rfl

/-- The marks of sorted records single out the last record of every group, so that their lines tell the sizes of the
groups. -/
theorem marks_tell_groups (records : List Record) :
    (marks (sort records)).length = records.length ∧
    (∀ g, marksOf g (sort records) (marks (sort records)) = groupMarks (inGroup g records).length) ∧
    (marks (sort records)).count 1 = (groupNumbers records).length ∧
    (records ≠ [] → (marks (sort records)).getLast? = some 1) ∧
    (cutAfter (· = ['1']) (lines (renderMarks (marks (sort records))).toList)).map List.length =
      (groupNumbers records).map fun g => (inGroup g records).length := by
  have hsizes : ∀ g ∈ groupNumbers records, (inGroup g records).length ≠ 0 := fun g hg =>
    mt List.length_eq_zero_iff.mp (inGroup_ne_nil hg)
  refine ⟨?_, fun g => ?_, ?_, fun hne => ?_, ?_⟩
  · rw [length_marks, length_sort]
  · rw [marksOf_marks (sort_groups_ordered records), length_inGroup_sort]
  · have hones : ∀ g ∈ groupNumbers records, (List.count 1 ∘ fun g => groupMarks (inGroup g records).length) g = 1 :=
      fun g hg => count_one_groupMarks (hsizes g hg)
    rw [marks_sort, List.count_flatMap, List.map_congr_left hones, List.map_const', List.sum_replicate_nat, Nat.mul_one]
  · refine getLast?_marks fun hnil => hne ?_
    rw [← List.length_eq_zero_iff, ← length_sort, hnil, List.length_nil]
  · rw [lines_renderMarks, marks_sort, cutAfter_groupMarks hsizes]

def scattered : List Record :=
  [⟨"2.in", "", 2, 1⟩, ⟨"1b.in", "", 1, 2⟩, ⟨"01b.in", "", 1, 2⟩, ⟨"2c.in", "", 2, 3⟩, ⟨"1.in", "", 1, 1⟩]

theorem marks_tell_groups_scattered :
    scattered ≠ [] ∧ (marks (sort scattered)).length = 5 ∧ marksOf 1 (sort scattered) (marks (sort scattered)) = [-1, -1, 1] ∧
      (marks (sort scattered)).count 1 = 2 ∧ (marks (sort scattered)).getLast? = some 1 ∧
      (cutAfter (· = ['1']) (lines (renderMarks (marks (sort scattered))).toList)).map List.length = [3, 2] := by
  have hne : scattered ≠ [] := by decide
  have hnumbers : groupNumbers scattered = [1, 2] := by decide +kernel
  obtain ⟨hlength, hmarks, hones, hlast, hsizes⟩ := marks_tell_groups scattered
  rw [hnumbers] at hones hsizes
  exact ⟨hne, hlength, hmarks 1, hones, hlast hne, hsizes⟩

end ContestTests.Record
