import ContestTests.Proofs.Regex.Classes
import ContestTests.Proofs.Text.Folding

/-!
# Escaped text in classes

The class between brackets of escaped letters holds exactly these letters, and under folding what
folds together with one of them.
-/

namespace ContestTests.Regex

open ContestTests.Text

variable {c d x : Char} {s t letters : List Char} {current : OpenSet} {outer : List OpenSet}

-- ---------------------------------------------------------------------------
-- Escaping
-- ---------------------------------------------------------------------------

theorem escape_cons (c : Char) (s : List Char) : escape (c :: s) = escape [c] ++ escape s := by
  simp [escape]

theorem escape_meta (h : isMeta c) : escape [c] = ['\\', c] := by simp [escape, h]

theorem escape_plain (h : isMeta c = false) : escape [c] = [c] := by simp [escape, h]

theorem head_escape (h : s ≠ []) : ∃ d more, escape s = d :: more ∧ d ≠ '-' ∧ d ≠ '?' ∧ d ≠ '^' := by
  cases s with
  | nil => exact absurd rfl h
  | cons c s =>
    rw [escape_cons]
    cases hc : isMeta c with
    | true => exact ⟨'\\', _, by rw [escape_meta hc]; rfl, by decide, by decide, by decide⟩
    | false =>
      refine ⟨c, _, by rw [escape_plain hc]; rfl, ?_, ?_, ?_⟩ <;>
        · rintro rfl
          revert hc
          decide

theorem length_le_escape (s : List Char) : s.length ≤ (escape s).length := by
  induction s with
  | nil => simp
  | cons c s ih =>
    rw [escape_cons, List.length_append, List.length_cons]
    cases hc : isMeta c with
    | true => rw [escape_meta hc]; simp only [List.length_cons]; omega
    | false => rw [escape_plain hc]; simp only [List.length_cons]; omega

theorem readEscape_meta (h : isMeta c) (s : List Char) : readEscape false (c :: s) = some (.one c, s) := by
  unfold isMeta at h
  split at h
  all_goals first | rfl | cases h

-- ---------------------------------------------------------------------------
-- Letters between brackets
-- ---------------------------------------------------------------------------

theorem classStep_escape (c : Char) (hd : d ≠ '-') (s : List Char) :
    classStep false current outer (escape [c] ++ d :: s) =
      some (.inr (current.add (.single c) .body, outer), d :: s) := by
  cases hc : isMeta c with
  | true =>
    have hrange : readRange false ('\\' :: c :: d :: s) = some (.single c, d :: s) := by
      rw [readRange_eq, readItem, readEscape_meta hc]
      simp [rangeAfter, hd, Atom.alone, Atom.toSet?]
    rw [escape_meta hc]
    simp only [List.cons_append, List.nil_append]
    rw [classStep_item (by simp [OpenSet.TakesLiterally]) (by decide) (by decide) (.inl rfl),
      hrange]
    rfl
  | false =>
    rw [escape_plain hc]
    exact classStep_plain (isClassPlain_of_not_isMeta hc) hd outer s

def OpenSet.addLetters (o : OpenSet) (letters : List Char) : OpenSet :=
  letters.foldl (fun o c => o.add (.single c) .body) o

theorem addLetters_edge (h : letters ≠ []) : (current.addLetters letters).edge = .body := by
  induction letters generalizing current with
  | nil => exact absurd rfl h
  | cons c letters ih =>
    cases letters with
    | nil => rfl
    | cons d letters => exact ih (by simp)

/-- Letters join however they are spelled, as long as a step takes one of them. -/
theorem classLoop_spelled (spell : Char → List Char)
    (hhead : ∀ c ∈ letters, ∃ e more, spell c = e :: more ∧ e ≠ '-')
    (hstep : ∀ c ∈ letters, ∀ current d s, d ≠ '-' → classStep false current outer (spell c ++ d :: s) =
      some (.inr (current.add (.single c) .body, outer), d :: s))
    (hd : d ≠ '-') (s : List Char) (fuel : Nat) :
    classLoop false (fuel + letters.length) current outer (letters.flatMap spell ++ d :: s) =
      classLoop false fuel (current.addLetters letters) outer (d :: s) := by
  induction letters generalizing current with
  | nil => rfl
  | cons c letters ih =>
    have htail : ∀ x ∈ letters, x ∈ c :: letters := fun x hx => List.mem_cons_of_mem c hx
    obtain ⟨e, more, he, hne⟩ : ∃ e more, letters.flatMap spell ++ d :: s = e :: more ∧ e ≠ '-' := by
      cases letters with
      | nil => exact ⟨d, s, rfl, hd⟩
      | cons c' letters =>
        obtain ⟨e, more, he, hne⟩ := hhead c' (by simp)
        exact ⟨e, more ++ (letters.flatMap spell ++ d :: s), by simp [he], hne⟩
    rw [List.flatMap_cons, List.append_assoc, List.length_cons, ← Nat.add_assoc, classLoop, he,
      hstep c List.mem_cons_self _ _ _ hne, ← he]
    exact ih (fun x hx => hhead x (htail x hx)) fun x hx => hstep x (htail x hx)

theorem classLoop_letters (hd : d ≠ '-') (letters s : List Char) (fuel : Nat) :
    classLoop false (fuel + letters.length) current outer (escape letters ++ d :: s) =
      classLoop false fuel (current.addLetters letters) outer (d :: s) := by
  rw [show escape letters = letters.flatMap fun c => escape [c] by simp [escape]]
  refine classLoop_spelled _ (fun c _ => ?_) (fun c _ current d s hd => classStep_escape c hd s) hd s fuel
  obtain ⟨e, more, he, hne, -⟩ := head_escape (s := [c]) (by simp)
  exact ⟨e, more, he, hne⟩

theorem classLoop_plain (h : ∀ c ∈ letters, isClassPlain c) (hd : d ≠ '-') (s : List Char) (fuel : Nat) :
    classLoop false (fuel + letters.length) current outer (letters ++ d :: s) =
      classLoop false fuel (current.addLetters letters) outer (d :: s) := by
  have hspell : classLoop false (fuel + letters.length) current outer
      (letters.flatMap (fun c => [c]) ++ d :: s) = classLoop false fuel (current.addLetters letters) outer (d :: s) :=
    classLoop_spelled (fun c => [c]) (fun c hc => ⟨c, [], rfl, ne_of_isClassPlain (h c hc) rfl⟩)
      (fun c hc current d s hd => classStep_plain (h c hc) hd outer s) hd s fuel
  simpa using hspell

def letterSet (letters : List Char) : CharSet :=
  ((⟨false, none, .empty, .start⟩ : OpenSet).addLetters letters).close

theorem readClass_letters (h : letters ≠ []) (t : List Char) :
    readClass false (escape letters ++ ']' :: t) = some (letterSet letters, t) := by
  obtain ⟨e, more, he, -, -, hne⟩ := head_escape h
  have hopen : openSet false (escape letters ++ ']' :: t) =
      (⟨false, none, .empty, .start⟩, escape letters ++ ']' :: t) := by
    rw [he, List.cons_append, openSet_cons, if_neg hne]
  have hlen := length_le_escape letters
  rw [readClass, hopen]
  obtain ⟨fuel, hfuel⟩ : ∃ fuel, (escape letters ++ ']' :: t).length + 1 =
      fuel + 1 + letters.length :=
    ⟨(escape letters).length - letters.length + t.length + 1, by
      simp only [List.length_append, List.length_cons]; omega⟩
  simp only [hfuel]
  rw [classLoop_letters (by decide), classLoop, classStep_close (by rw [addLetters_edge h]; decide)]
  rfl

-- ---------------------------------------------------------------------------
-- Membership under folding
-- ---------------------------------------------------------------------------

theorem mem_single_iff : (CharSet.single c).mem true x ↔ fold c = fold x := by
  simp only [CharSet.single, CharSet.mem, CharSet.holdsAt, if_true, List.any_eq_true,
    Bool.and_eq_true, decide_eq_true_eq]
  constructor
  · rintro ⟨d, hd, hcd, hdc⟩
    rw [Char.le_antisymm hcd hdc]
    exact fold_of_mem_orbit hd
  · intro h
    exact ⟨c, mem_orbit_iff.mpr h, Char.le_refl c, Char.le_refl c⟩

theorem mem_addLetters (h : current.left = none) :
    (current.addLetters letters).value.mem true x ↔
      current.items.mem true x ∨ ∃ c ∈ letters, fold c = fold x := by
  induction letters generalizing current with
  | nil => simp [OpenSet.addLetters, OpenSet.value, h]
  | cons c letters ih =>
    refine (@ih (current.add (.single c) .body) h).trans ?_
    simp [OpenSet.add, CharSet.mem, mem_single_iff, or_assoc]

theorem addLetters_negated : (current.addLetters letters).negated = current.negated := by
  induction letters generalizing current with
  | nil => rfl
  | cons c letters ih => exact ih

theorem mem_letterSet_iff : (letterSet letters).mem true x ↔ ∃ c ∈ letters, fold c = fold x := by
  rw [letterSet, OpenSet.close, addLetters_negated]
  refine (mem_addLetters rfl).trans ?_
  simp [CharSet.mem]

def digitSet : CharSet := .union .empty (.range '0' '9')

theorem readClass_digits (t : List Char) : readClass false ("0-9]".toList ++ t) = some (digitSet, t) :=
  (readClass_steady digitSet [] rfl).2 t

theorem isDigit_iff : c.isDigit ↔ 0x30 ≤ c.toNat ∧ c.toNat ≤ 0x39 := Char.isDigit_iff_toNat

theorem fold_digit (h : c.isDigit) : fold c = c := by
  obtain ⟨hlow, hhigh⟩ := isDigit_iff.mp h
  have hcase : ∀ n < 0x80, n ≤ 0x39 → (Char.ofNat n).toLower = Char.ofNat n := by decide
  rw [fold, if_pos (by omega)]
  simpa using hcase c.toNat (by omega) hhigh

theorem mem_digitSet_iff : digitSet.mem true x ↔ x.isDigit := by
  have hle (d : Char) : '0' ≤ d ∧ d ≤ '9' ↔ d.isDigit := by
    rw [isDigit_iff]
    exact Iff.rfl
  simp only [digitSet, CharSet.mem, CharSet.holdsAt, if_true, Bool.false_or, List.any_eq_true,
    Bool.and_eq_true, decide_eq_true_eq, hle]
  constructor
  · rintro ⟨d, hd, hdigit⟩
    have hfold : fold x = d := (fold_of_mem_orbit hd).symm.trans (fold_digit hdigit)
    have hx : fold x = x := fold_eq_digit (by rw [hfold]; exact (isDigit_iff.mp hdigit).2)
    rwa [← hx, hfold]
  · exact fun h => ⟨x, self_mem_orbit x, h⟩

end ContestTests.Regex
