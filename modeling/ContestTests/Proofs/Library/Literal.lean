import ContestTests.Glob
import ContestTests.Text.Blank

/-!
# Patterns of texts that stand for themselves

An escaped text is read as one token for each of its characters, whatever stands beside it, so that with a
star behind it the pattern accepts the names that start with the text. ASCII case is ignored between
brackets as it is outside.
-/

namespace ContestTests.Glob

open Text

variable {c d : Char} {s name rest : List Char} {tokens : List Token} {token : Token} {fresh : Bool}

/-- The name starts with the text, if ASCII letters are compared without case. -/
def Begins (initial name : List Char) : Prop :=
  ∃ start rest, name = start ++ rest ∧ sameIgnoringAsciiCase start initial

-- ---------------------------------------------------------------------------
-- Reading
-- ---------------------------------------------------------------------------

def literal (c : Char) : Token := if isSpecial c then .within [.one c] else .char c

theorem isSpecial_iff : isSpecial c ↔ c = '?' ∨ c = '*' ∨ c = '[' ∨ c = ']' := by
  unfold isSpecial
  split <;> simp_all

theorem escape_nil : escape [] = [] := rfl

theorem escape_special (h : isSpecial c) (s : List Char) : escape (c :: s) = '[' :: c :: ']' :: escape s := by
  rw [escape, List.flatMap_cons, if_pos h]
  rfl

theorem escape_plain (h : isSpecial c = false) (s : List Char) : escape (c :: s) = c :: escape s := by
  rw [escape, List.flatMap_cons, h]
  rfl

theorem cutAtBracket_single (c : Char) (rest : List Char) : cutAtBracket c (']' :: rest) = some ([c], rest) := by
  rw [cutAtBracket, List.dropWhile_cons_of_neg (by simp), List.takeWhile_cons_of_neg (by simp)]

theorem readToken_special (h : isSpecial c) (rest : List Char) :
    readToken fresh ('[' :: c :: ']' :: rest) = some (literal c, rest) := by
  rw [literal, if_pos h]
  have hcut := cutAtBracket_single c rest
  rcases isSpecial_iff.mp h with rfl | rfl | rfl | rfl <;> simp [readToken, readBrackets, hcut, itemsOf]

theorem readToken_plain (h : isSpecial c = false) (rest : List Char) :
    readToken fresh (c :: rest) = some (literal c, rest) := by
  have hnot : ¬(c = '?' ∨ c = '*' ∨ c = '[' ∨ c = ']') := fun hspecial => by
    rw [isSpecial_iff.mpr hspecial] at h
    cases h
  rw [literal, h]
  unfold readToken
  split <;> simp_all

theorem readToken_star : readToken fresh ['*'] = some (.anyText, []) := by
  cases fresh <;> rfl

theorem push_of_ne (h : token ≠ .anyDirectories) (tokens : List Token) : push tokens token = tokens ++ [token] :=
  if_neg fun hpushed => h hpushed.1

theorem literal_ne (c : Char) : literal c ≠ .anyDirectories := by
  rw [literal]
  split <;> simp

theorem readTokens_step {fuel : Nat} {behind : List Char} (hne : s ≠ []) (h : readToken fresh s = some (token, behind))
    (htoken : token ≠ .anyDirectories) (tokens : List Token) : readTokens (fuel + 1) fresh tokens s =
      readTokens fuel token.leavesFresh (tokens ++ [token]) behind := by
  obtain ⟨c, rest, rfl⟩ := List.exists_cons_of_ne_nil hne
  rw [readTokens, h]
  · dsimp only
    rw [push_of_ne htoken]
  · simp

theorem readTokens_escape {fuel : Nat} (hfuel : s.length < fuel) (fresh : Bool) (tokens : List Token) :
    readTokens fuel fresh tokens (escape s ++ ['*']) = some (tokens ++ s.map literal ++ [.anyText]) := by
  induction s generalizing fuel fresh tokens with
  | nil =>
    obtain ⟨fuel, rfl⟩ := Nat.exists_eq_add_one_of_ne_zero (Nat.ne_zero_of_lt hfuel)
    rw [escape_nil, List.nil_append, readTokens_step (by simp) readToken_star (by simp), List.map_nil, List.append_nil]
    cases fuel <;> rfl
  | cons c s ih =>
    obtain ⟨fuel, rfl⟩ := Nat.exists_eq_add_one_of_ne_zero (Nat.ne_zero_of_lt hfuel)
    have hrest := ih (Nat.lt_of_succ_lt_succ hfuel) (literal c).leavesFresh (tokens ++ [literal c])
    have hread : readToken fresh (escape (c :: s) ++ ['*']) = some (literal c, escape s ++ ['*']) := by
      cases hspecial : isSpecial c with
      | true =>
        rw [escape_special hspecial]
        exact readToken_special hspecial _
      | false =>
        rw [escape_plain hspecial]
        exact readToken_plain hspecial _
    rw [readTokens_step (by simp) hread (literal_ne c), hrest, List.map_cons, List.append_assoc, List.append_assoc,
      List.append_assoc, List.singleton_append, List.cons_append]

theorem length_le_escape (s : List Char) : s.length ≤ (escape s).length := by
  induction s with
  | nil => exact Nat.le_refl _
  | cons c s ih =>
    cases hspecial : isSpecial c with
    | true =>
      rw [escape_special hspecial]
      simp only [List.length_cons]
      omega
    | false =>
      rw [escape_plain hspecial]
      exact Nat.succ_le_succ ih

theorem ofText?_escape (s : List Char) : ofText? (escape s ++ ['*']) = some ⟨s.map literal ++ [.anyText]⟩ := by
  have hfuel : s.length < (escape s ++ ['*']).length := by
    rw [List.length_append]
    exact Nat.lt_succ_of_le (length_le_escape s)
  rw [ofText?, readTokens_escape hfuel, List.nil_append]
  rfl

-- ---------------------------------------------------------------------------
-- Matching
-- ---------------------------------------------------------------------------

theorem literal_takes : (literal c).takes d ↔ d.toLower = c.toLower := by
  rw [literal]
  split <;> simp [Token.takes, Item.takes]

theorem tokensAccept_star (name : List Char) : tokensAccept [.anyText] name := by
  rw [tokensAccept, List.any_eq_true]
  refine ⟨[], ?_, rfl⟩
  induction name with
  | nil => exact List.mem_cons_self
  | cons c name ih => exact List.mem_cons_of_mem _ ih

theorem begins_nil (name : List Char) : Begins [] name := ⟨[], name, rfl, rfl⟩

theorem not_begins_nil : ¬Begins (c :: s) [] := by
  rintro ⟨start, rest, hname, hsame⟩
  obtain rfl : start = [] := (List.append_eq_nil_iff.mp hname.symm).1
  cases hsame

theorem begins_cons : Begins (c :: s) (d :: name) ↔ d.toLower = c.toLower ∧ Begins s name := by
  constructor
  · rintro ⟨start, rest, hname, hsame⟩
    cases start with
    | nil => cases hsame
    | cons b start =>
      obtain ⟨rfl, rfl⟩ := List.cons.inj hname
      obtain ⟨hhead, htail⟩ := List.cons.inj (beq_iff_eq.mp hsame)
      exact ⟨hhead, start, rest, rfl, beq_iff_eq.mpr htail⟩
  · rintro ⟨hhead, start, rest, rfl, hsame⟩
    refine ⟨d :: start, rest, rfl, beq_iff_eq.mpr ?_⟩
    rw [List.map_cons, List.map_cons, hhead, beq_iff_eq.mp hsame]

theorem tokensAccept_literal_nil (c : Char) (tokens : List Token) : tokensAccept (literal c :: tokens) [] = false := by
  rw [literal]
  split <;> rfl

theorem tokensAccept_literal_cons (c d : Char) (tokens : List Token) (rest : List Char) :
    tokensAccept (literal c :: tokens) (d :: rest) = ((literal c).takes d && tokensAccept tokens rest) := by
  rw [literal]
  split <;> rfl

theorem tokensAccept_literals : tokensAccept (s.map literal ++ [.anyText]) name ↔ Begins s name := by
  induction s generalizing name with
  | nil => exact iff_of_true (tokensAccept_star name) (begins_nil name)
  | cons c s ih =>
    rw [List.map_cons, List.cons_append]
    cases name with
    | nil => simp [tokensAccept_literal_nil, not_begins_nil]
    | cons d name => rw [tokensAccept_literal_cons, Bool.and_eq_true, literal_takes, ih, begins_cons]

end ContestTests.Glob
