import ContestTests.Proofs.Text.Trimming

/-!
# Pieces, lines and words

Where a separator does not occur in a piece, the pieces are found again. So are lines, whichever way they
end, up to a carriage return that is not told from the end of its line.
-/

namespace ContestTests.Text

variable {s line text word e : List Char} {written : List (List Char)}

-- ---------------------------------------------------------------------------
-- Pieces
-- ---------------------------------------------------------------------------

theorem splitOn_append (c : Char) (s t : List Char) :
    splitOn c (s ++ c :: t) = splitOn c s ++ splitOn c t := by
  induction s with
  | nil => simp [splitOn]
  | cons d s ih =>
    rw [List.cons_append, splitOn, splitOn, ih]
    split
    · rfl
    · cases h : splitOn c s with
      | nil => exact absurd h (splitOn_ne_nil c s)
      | cons piece pieces => rfl

theorem splitOn_of_not_mem {c : Char} {s : List Char} (h : c ∉ s) : splitOn c s = [s] := by
  induction s with
  | nil => rfl
  | cons d s ih =>
    have hd : c ≠ d := List.ne_of_not_mem_cons h
    rw [splitOn, if_neg hd.symm, ih (List.not_mem_of_not_mem_cons h)]

theorem mem_splitOn {c : Char} {s piece : List Char} (h : piece ∈ splitOn c s) :
    c ∉ piece ∧ ∀ d ∈ piece, d ∈ s := by
  induction s generalizing piece with
  | nil =>
    obtain rfl : piece = [] := by simpa [splitOn] using h
    exact ⟨List.not_mem_nil, by simp⟩
  | cons d s ih =>
    rw [splitOn] at h
    split at h
    · rcases List.mem_cons.mp h with rfl | h
      · exact ⟨List.not_mem_nil, by simp⟩
      · obtain ⟨hc, hs⟩ := ih h
        exact ⟨hc, fun e he => List.mem_cons_of_mem _ (hs e he)⟩
    · rename_i hd
      cases hsplit : splitOn c s with
      | nil => exact absurd hsplit (splitOn_ne_nil c s)
      | cons first more =>
        rw [hsplit] at h ih
        rcases List.mem_cons.mp h with rfl | h
        · obtain ⟨hc, hs⟩ := ih List.mem_cons_self
          refine ⟨List.not_mem_cons_of_ne_of_not_mem (Ne.symm hd) hc, fun e he => ?_⟩
          rcases List.mem_cons.mp he with rfl | he
          · exact List.mem_cons_self
          · exact List.mem_cons_of_mem _ (hs e he)
        · obtain ⟨hc, hs⟩ := ih (List.mem_cons_of_mem _ h)
          exact ⟨hc, fun e he => List.mem_cons_of_mem _ (hs e he)⟩

theorem splitOn_joinWith {c : Char} {names : List (List Char)} (hne : names ≠ [])
    (h : ∀ s ∈ names, c ∉ s) : splitOn c (joinWith [c] names) = names := by
  induction names with
  | nil => exact absurd rfl hne
  | cons s names ih =>
    obtain ⟨hs, hnames⟩ := List.forall_mem_cons.mp h
    cases names with
    | nil => exact splitOn_of_not_mem hs
    | cons t names =>
      have hjoin : joinWith [c] (s :: t :: names) = s ++ c :: joinWith [c] (t :: names) := by
        simp [joinWith]
      rw [hjoin, splitOn_append, splitOn_of_not_mem hs, ih (by simp) hnames]
      rfl

-- ---------------------------------------------------------------------------
-- Lines
-- ---------------------------------------------------------------------------

theorem exists_dropReturn (line : List Char) : ∃ e, Blank e ∧ line = dropReturn line ++ e := by
  rw [dropReturn]
  split
  · rename_i hlast
    refine ⟨['\r'], List.forall_mem_singleton.mpr rfl, ?_⟩
    exact (List.dropLast_append_getLast? _ hlast).symm
  · exact ⟨[], blank_nil, (List.append_nil line).symm⟩

theorem dropReturn_append (line : List Char) : dropReturn (line ++ ['\r']) = line := by
  rw [dropReturn, if_pos List.getLast?_concat, List.dropLast_concat]

theorem lines_unended (hne : line ≠ []) (h : '\n' ∉ line) : lines line = [line] := by
  rw [lines, splitOn_of_not_mem h, endLines, if_neg (by simpa using hne)]

theorem lines_ended (h : '\n' ∉ line) (text : List Char) :
    lines (line ++ '\n' :: text) = dropReturn line :: lines text := by
  rw [lines, splitOn_append, splitOn_of_not_mem h, List.singleton_append]
  obtain ⟨piece, more, hpieces⟩ := List.exists_cons_of_ne_nil (splitOn_ne_nil '\n' text)
  rw [lines, hpieces, endLines]
  exact List.cons_ne_nil piece more

theorem trim_first_line (s : List Char) : trim ((lines s).headD []) = trim (s.takeWhile (· ≠ '\n')) := by
  have hfirst : '\n' ∉ s.takeWhile (· ≠ '\n') := fun h => by simpa using List.mem_takeWhile_imp h
  have hs : s.takeWhile (· ≠ '\n') ++ s.dropWhile (· ≠ '\n') = s := List.takeWhile_append_dropWhile
  cases hrest : s.dropWhile (· ≠ '\n') with
  | nil =>
    rw [hrest, List.append_nil] at hs
    rw [hs] at hfirst ⊢
    by_cases hne : s = []
    · rw [hne]
      rfl
    · rw [lines_unended hne hfirst]
      rfl
  | cons c rest =>
    obtain rfl : c = '\n' := by
      have hnot := List.head?_dropWhile_not (· ≠ '\n') s
      rw [hrest] at hnot
      simpa using hnot
    rw [hrest] at hs
    obtain ⟨e, he, hline⟩ := exists_dropReturn (s.takeWhile (· ≠ '\n'))
    have hlines := lines_ended hfirst rest
    rw [hs] at hlines
    rw [hlines, List.headD_cons, hline, trim_append_blank he, ← hline]

inductive LineEnd : List Char → Prop
  | alone : LineEnd ['\n']
  | returned : LineEnd ['\r', '\n']

/-- Lines with their ends; the last one may be without. -/
inductive LaidOut : List (List Char) → List Char → Prop
  | nil : LaidOut [] []
  | unended {line : List Char} (hne : line ≠ []) : LaidOut [line] line
  | ended {line e text : List Char} {written : List (List Char)} (he : LineEnd e) (h : LaidOut written text) :
      LaidOut (line :: written) (line ++ e ++ text)

def Finds (line found : List Char) : Prop := ∃ e, Blank e ∧ line = found ++ e

theorem finds_lines (h : LaidOut written text) (hwritten : ∀ line ∈ written, '\n' ∉ line) :
    List.Forall₂ Finds written (lines text) := by
  induction h with
  | nil => exact .nil
  | @unended line hne =>
    rw [lines_unended hne (hwritten line List.mem_cons_self)]
    exact .cons ⟨[], blank_nil, (List.append_nil line).symm⟩ .nil
  | @ended line e text written he _ ih =>
    obtain ⟨hline, hrest⟩ := List.forall_mem_cons.mp hwritten
    cases he with
    | alone =>
      rw [List.append_assoc, List.singleton_append, lines_ended hline]
      exact .cons (exists_dropReturn line) (ih hrest)
    | returned =>
      have hreturned : '\n' ∉ line ++ ['\r'] := by simpa using hline
      have htext : line ++ ['\r', '\n'] ++ text = line ++ ['\r'] ++ '\n' :: text := by simp
      rw [htext, lines_ended hreturned, dropReturn_append]
      exact .cons ⟨[], blank_nil, (List.append_nil line).symm⟩ (ih hrest)

theorem exists_laidOut (written : List (List Char)) : ∃ text, LaidOut written text := by
  induction written with
  | nil => exact ⟨[], .nil⟩
  | cons line written ih =>
    obtain ⟨text, htext⟩ := ih
    exact ⟨_, .ended .alone htext⟩

-- ---------------------------------------------------------------------------
-- Words
-- ---------------------------------------------------------------------------

def firstWord (line : List Char) : List Char := (trimStart line).takeWhile (!isBlank ·)

theorem splitAtBlank_of_notBlank (h : ∀ c ∈ word, isBlank c = false) : splitAtBlank word = none := by
  induction word with
  | nil => rfl
  | cons c word ih =>
    obtain ⟨hc, hword⟩ := List.forall_mem_cons.mp h
    rw [splitAtBlank, hc, ih hword]
    rfl

theorem splitAtBlank_append {b : Char} (h : ∀ c ∈ word, isBlank c = false) (hb : isBlank b) (rest : List Char) :
    splitAtBlank (word ++ b :: rest) = some (word, rest) := by
  induction word with
  | nil => rw [List.nil_append, splitAtBlank, if_pos hb]
  | cons c word ih =>
    obtain ⟨hc, hword⟩ := List.forall_mem_cons.mp h
    rw [List.cons_append, splitAtBlank, hc, ih hword]
    rfl

theorem splitAtBlank_fst {after : List Char} (h : splitAtBlank s = some (word, after)) :
    s.takeWhile (!isBlank ·) = word := by
  induction s generalizing word with
  | nil => cases h
  | cons c s ih =>
    rw [splitAtBlank] at h
    split at h
    · rename_i hc
      cases h
      exact List.takeWhile_cons_of_neg (by simpa using hc)
    · rename_i hc
      obtain ⟨⟨word', after'⟩, hsplit, he⟩ := Option.map_eq_some_iff.mp h
      cases he
      rw [List.takeWhile_cons_of_pos (by simpa using hc), ih hsplit]

theorem takeWhile_of_splitAtBlank (h : splitAtBlank s = none) : s.takeWhile (!isBlank ·) = s := by
  induction s with
  | nil => rfl
  | cons c s ih =>
    rw [splitAtBlank] at h
    split at h
    · cases h
    · rename_i hc
      rw [List.takeWhile_cons_of_pos (by simpa using hc), ih (Option.map_eq_none_iff.mp h)]

theorem takeWhile_append_blank (he : Blank e) (s : List Char) :
    (s ++ e).takeWhile (!isBlank ·) = s.takeWhile (!isBlank ·) := by
  induction s with
  | nil =>
    cases e with
    | nil => rfl
    | cons b e => exact List.takeWhile_cons_of_neg (by simp [he b List.mem_cons_self])
  | cons c s ih => rw [List.cons_append, List.takeWhile_cons, List.takeWhile_cons, ih]

theorem takeWhile_trim (line : List Char) : (trim line).takeWhile (!isBlank ·) = firstWord line := by
  obtain ⟨e, he, hline, -⟩ := exists_trimEnd (trimStart line)
  rw [firstWord, hline, takeWhile_append_blank he, trim]

end ContestTests.Text
