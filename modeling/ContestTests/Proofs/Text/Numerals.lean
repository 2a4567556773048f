import ContestTests.Proofs.Template.Rendering
import ContestTests.Text.Blank

/-!
# Numerals with a sign

What is read as a number is exactly a numeral that fits, perhaps behind a sign: a plus sign before
any number, a minus sign before whole numbers that are not above zero.
-/

namespace ContestTests.Text

open Template (AllDigits IsNumeral)

variable {s digits : List Char} {bound n : Nat} {z : Int}

def IsUnsigned (n : Nat) (s : List Char) : Prop := ∃ digits, (s = digits ∨ s = '+' :: digits) ∧ IsNumeral n digits

/-- A numeral, perhaps behind a sign that agrees with it. -/
def IsSigned (z : Int) (s : List Char) : Prop :=
  0 ≤ z ∧ IsUnsigned z.natAbs s ∨ z ≤ 0 ∧ ∃ digits, s = '-' :: digits ∧ IsNumeral z.natAbs digits

theorem isNumeral_toDigits (n : Nat) : IsNumeral n (Nat.toDigits 10 n) :=
  ⟨Nat.toDigits_ne_nil, fun _ hc => Nat.isDigit_of_mem_toDigits (by decide) (by decide) hc, Nat.ofDigitChars_ten_toDigits⟩

theorem readDigits?_eq_some_iff : readDigits? s = some n ↔ IsNumeral n s := by
  rw [readDigits?, IsNumeral]
  by_cases hs : s = []
  · simp [hs]
  · by_cases hall : AllDigits s
    · simp [hs, hall, List.all_eq_true.mpr hall]
    · have hany : s.all Char.isDigit = false := by
        rw [← Bool.not_eq_true, List.all_eq_true]
        exact hall
      simp [hall, hany]

theorem not_isNumeral_sign {c : Char} (hc : c.isDigit = false) : ¬IsNumeral n (c :: s) := fun h => by
  have hdigit := h.2.1 c List.mem_cons_self
  rw [hc] at hdigit
  cases hdigit

theorem isUnsigned_plus : IsUnsigned n ('+' :: digits) ↔ IsNumeral n digits := by
  constructor
  · rintro ⟨digits', rfl | he, h⟩
    · exact absurd h (not_isNumeral_sign rfl)
    · exact (List.cons.inj he).2 ▸ h
  · exact fun h => ⟨digits, .inr rfl, h⟩

theorem isUnsigned_of_head (h : s.head? ≠ some '+') : IsUnsigned n s ↔ IsNumeral n s := by
  constructor
  · rintro ⟨digits, rfl | rfl, hdigits⟩
    · exact hdigits
    · exact absurd rfl h
  · exact fun hs => ⟨s, .inl rfl, hs⟩

theorem readBelow?_eq_some_iff : readBelow? bound s = some n ↔ IsUnsigned n s ∧ n < bound := by
  unfold readBelow?
  split
  · rw [isUnsigned_plus, ← readDigits?_eq_some_iff]
    simp
  · rename_i hplus
    have hhead : s.head? ≠ some '+' := fun h => by
      obtain ⟨rest, rfl⟩ := List.head?_eq_some_iff.mp h
      exact hplus rest rfl
    rw [isUnsigned_of_head hhead, ← readDigits?_eq_some_iff]
    simp

theorem readSigned?_of_isSigned (h : IsSigned z s) (hlow : -(bound : Int) ≤ z) (hhigh : z < bound) :
    readSigned? bound s = some z := by
  rcases h with ⟨hz, hs⟩ | ⟨hz, digits, rfl, hdigits⟩
  · have hread : readBelow? bound s = some z.natAbs := readBelow?_eq_some_iff.mpr ⟨hs, by omega⟩
    have hminus (rest : List Char) : s ≠ '-' :: rest := by
      rintro rfl
      have hnumeral := (isUnsigned_of_head (by simp)).mp hs
      exact not_isNumeral_sign rfl hnumeral
    unfold readSigned?
    split
    · exact absurd rfl (hminus _)
    · rw [hread, Option.map_some]
      exact congrArg some (Int.natAbs_of_nonneg hz)
  · have hread : readDigits? digits = some z.natAbs := readDigits?_eq_some_iff.mpr hdigits
    have hfits : z.natAbs ≤ bound := by omega
    have hvalue : -(z.natAbs : Int) = z := by rw [Int.ofNat_natAbs_of_nonpos hz, Int.neg_neg]
    simp only [readSigned?, hread, Option.filter_some, hfits, decide_true, if_true]
    exact congrArg some hvalue

theorem exists_isSigned (z : Int) : ∃ s, IsSigned z s := by
  rcases Int.le_total 0 z with hz | hz
  · exact ⟨_, .inl ⟨hz, _, .inl rfl, isNumeral_toDigits z.natAbs⟩⟩
  · exact ⟨_, .inr ⟨hz, _, rfl, isNumeral_toDigits z.natAbs⟩⟩

theorem IsSigned.isBlank_eq_false (h : IsSigned z s) {c : Char} (hc : c ∈ s) : isBlank c = false := by
  have hsign : c = '+' ∨ c = '-' ∨ c.isDigit := by
    rcases h with ⟨-, digits, rfl | rfl, hdigits⟩ | ⟨-, digits, rfl, hdigits⟩
    · exact .inr (.inr (hdigits.2.1 c hc))
    · exact (List.mem_cons.mp hc).imp_right fun hc => .inr (hdigits.2.1 c hc)
    · exact .inr ((List.mem_cons.mp hc).imp_right fun hc => hdigits.2.1 c hc)
  rcases hsign with rfl | rfl | hdigit
  · rfl
  · rfl
  · have hbounds : 48 ≤ c.toNat ∧ c.toNat ≤ 57 := by
      simpa [Char.isDigit, UInt32.le_iff_toNat_le] using hdigit
    simp only [isBlank]
    simp
    omega

end ContestTests.Text
