import ContestTests.Text.Blank
import Mathlib.Data.List.Basic
import Mathlib.Data.List.TakeWhile

/-!
# Blanks around texts

Trimming takes away exactly the blanks around a text, so that a text between blanks is found again if no
blank is at its own ends. Trimmed once, a text stays as it is.
-/

namespace ContestTests.Text

variable {s b e : List Char} {c : Char}

def Blank (s : List Char) : Prop := ∀ c ∈ s, isBlank c

instance : Decidable (Blank s) := decidable_of_iff (s.all isBlank = true) List.all_eq_true

theorem blank_nil : Blank [] := by simp [Blank]

/-- No white space at either end. -/
structure Trimmed (s : List Char) : Prop where
  head : ∀ c ∈ s.head?, isBlank c = false
  last : ∀ c ∈ s.getLast?, isBlank c = false

theorem trimmed_nil : Trimmed [] := ⟨by simp, by simp⟩

-- ---------------------------------------------------------------------------
-- One end
-- ---------------------------------------------------------------------------

theorem trimStart_blank_append (hb : Blank b) (s : List Char) : trimStart (b ++ s) = trimStart s :=
  List.dropWhile_append_of_pos hb

theorem trimEnd_append_blank (he : Blank e) (s : List Char) : trimEnd (s ++ e) = trimEnd s := by
  have hreverse : ∀ c ∈ e.reverse, isBlank c := fun c hc => he c (List.mem_reverse.mp hc)
  rw [trimEnd, List.reverse_append, List.dropWhile_append_of_pos hreverse, trimEnd]

theorem trimStart_of_head (h : ∀ c ∈ s.head?, isBlank c = false) : trimStart s = s := by
  cases s with
  | nil => rfl
  | cons c s => exact List.dropWhile_cons_of_neg (by simp [h c rfl])

theorem trimEnd_of_last (h : ∀ c ∈ s.getLast?, isBlank c = false) : trimEnd s = s := by
  have hreverse := trimStart_of_head (s := s.reverse) (by rwa [List.head?_reverse])
  rw [trimEnd, ← trimStart, hreverse, List.reverse_reverse]

/-- What is cut off at the start is blank, and what is left does not start with a blank. -/
theorem exists_trimStart (s : List Char) :
    ∃ b, Blank b ∧ s = b ++ trimStart s ∧ ∀ c ∈ (trimStart s).head?, isBlank c = false := by
  refine ⟨s.takeWhile isBlank, fun c => List.mem_takeWhile_imp, List.takeWhile_append_dropWhile.symm, fun c hc => ?_⟩
  have hnot := List.head?_dropWhile_not isBlank s
  rw [← trimStart, Option.mem_def.mp hc] at hnot
  simpa using hnot

theorem exists_trimEnd (s : List Char) :
    ∃ e, Blank e ∧ s = trimEnd s ++ e ∧ ∀ c ∈ (trimEnd s).getLast?, isBlank c = false := by
  obtain ⟨b, hb, hs, hhead⟩ := exists_trimStart s.reverse
  refine ⟨b.reverse, fun c hc => hb c (List.mem_reverse.mp hc), ?_, ?_⟩
  · rw [trimEnd, ← trimStart, ← List.reverse_append, ← hs, List.reverse_reverse]
  · rwa [trimEnd, ← trimStart, List.getLast?_reverse]

theorem last_of_trimEnd (h : trimEnd s = s) : ∀ c ∈ s.getLast?, isBlank c = false := by
  obtain ⟨e, -, -, hlast⟩ := exists_trimEnd s
  rwa [h] at hlast

-- ---------------------------------------------------------------------------
-- Both ends
-- ---------------------------------------------------------------------------

theorem Trimmed.trim_eq (h : Trimmed s) : trim s = s := by
  rw [trim, trimStart_of_head h.head, trimEnd_of_last h.last]

theorem trimmed_trim (s : List Char) : Trimmed (trim s) := by
  obtain ⟨b, -, -, hhead⟩ := exists_trimStart s
  obtain ⟨e, -, hs, hlast⟩ := exists_trimEnd (trimStart s)
  refine ⟨fun c hc => hhead c ?_, hlast⟩
  rw [hs]
  exact List.mem_head?_append_of_mem_head? hc

/-- The text in between does not matter, where both texts around it are not empty. -/
theorem Trimmed.around {t : List Char} (hs : Trimmed s) (hsne : s ≠ []) (ht : Trimmed t) (htne : t ≠ []) (between : List Char) :
    Trimmed (s ++ (between ++ t)) := by
  constructor
  · rw [List.head?_append_of_ne_nil _ hsne]
    exact hs.head
  · rw [← List.append_assoc, List.getLast?_append_of_ne_nil _ htne]
    exact ht.last

instance : Decidable (Trimmed s) := decidable_of_iff (trim s = s) ⟨fun h => h ▸ trimmed_trim s, Trimmed.trim_eq⟩

theorem trim_trim (s : List Char) : trim (trim s) = trim s := (trimmed_trim s).trim_eq

theorem trim_blank_append (hb : Blank b) (s : List Char) : trim (b ++ s) = trim s := by
  rw [trim, trimStart_blank_append hb, trim]

theorem trim_append_blank (he : Blank e) (s : List Char) : trim (s ++ e) = trim s := by
  obtain ⟨b, hb, hs, hhead⟩ := exists_trimStart s
  rw [hs, List.append_assoc, trim_blank_append hb, trim_blank_append hb]
  cases hrest : trimStart s with
  | nil =>
    have hnil : trim ([] ++ e) = trimEnd (trimStart e) := rfl
    have hblank : trimStart (e ++ []) = trimStart [] := trimStart_blank_append he []
    rw [hnil, ← List.append_nil e, hblank]
    rfl
  | cons c rest =>
    have hstart : trimStart (c :: rest ++ e) = c :: rest ++ e :=
      trimStart_of_head fun d hd => hhead d (by rwa [hrest])
    have hstart' : trimStart (c :: rest) = c :: rest := trimStart_of_head fun d hd => hhead d (by rwa [hrest])
    rw [trim, hstart, trimEnd_append_blank he, trim, hstart']

theorem trim_padded (hb : Blank b) (hs : Trimmed s) (he : Blank e) : trim (b ++ s ++ e) = s := by
  rw [trim_append_blank he, trim_blank_append hb, hs.trim_eq]

theorem trimmed_toList (s : String) : (trimmed s).toList = trim s.toList := String.toList_ofList

end ContestTests.Text
