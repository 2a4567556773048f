import ContestTests.Regex.Class

/-!
# Reading a class out of a longer text

A class that was read to its closing bracket is read the same way when more text follows. Every
reader on the way is `Steady`: what it leaves is an end of its text, and text behind the end stays
behind what it leaves. Only a reader that could have met the end of the text would notice more of it,
and none that leads to a closing bracket does.
-/

namespace ContestTests.Regex

open ContestTests.Text

@[simp] theorem skipBlanks_false (s : List Char) : skipBlanks false s = s := rfl

/-- A successful reading does not depend on what follows. -/
def Steady (read : List Char → Option (α × List Char)) (s : List Char) : Prop :=
  ∀ x rest, read s = some (x, rest) → rest <:+ s ∧ ∀ t, read (s ++ t) = some (x, rest ++ t)

variable {s rest t : List Char}

-- ---------------------------------------------------------------------------
-- Escapes
-- ---------------------------------------------------------------------------

theorem readHexDigits_steady (count value : Nat) : Steady (readHexDigits false count value) s := by
  induction count generalizing s value with
  | zero =>
    intro x rest h
    cases h
    exact ⟨List.suffix_rfl, fun t => rfl⟩
  | succ count ih =>
    intro x rest h
    cases s with
    | nil => simp [readHexDigits] at h
    | cons c s =>
      simp only [readHexDigits, bind, Option.bind_eq_some_iff, skipBlanks_false] at h
      obtain ⟨digit, hd, h⟩ := h
      obtain ⟨hs, ht⟩ := ih _ x rest h
      refine ⟨hs.trans (List.suffix_cons c s), fun t => ?_⟩
      simp [readHexDigits, hd, ht t]

/-- More fuel than the length of the text changes nothing. -/
theorem readBraced_steady (h : readBraced false fuel s = some (x, rest)) :
    rest <:+ s ∧ ∀ t more, readBraced false (fuel + more) (s ++ t) = some (x, rest ++ t) := by
  induction fuel generalizing s x with
  | zero => cases h
  | succ fuel ih =>
    cases s with
    | nil => simp [readBraced] at h
    | cons c s =>
      rw [readBraced] at h
      simp only [skipBlanks_false] at h
      split at h
      · rename_i hc
        cases h
        refine ⟨List.suffix_cons _ _, fun t more => ?_⟩
        simp [Nat.add_right_comm, readBraced, hc]
      · rename_i hc
        obtain ⟨⟨text, after⟩, hr, he⟩ := Option.map_eq_some_iff.mp h
        cases he
        obtain ⟨hs, ht⟩ := ih hr
        refine ⟨hs.trans (List.suffix_cons c s), fun t more => ?_⟩
        simp [Nat.add_right_comm, readBraced, hc, ht t more]

theorem readBraced_length_steady {s : List Char}
    (h : readBraced false (s.length + 1) s = some (x, rest)) :
    rest <:+ s ∧ ∀ t, readBraced false ((s ++ t).length + 1) (s ++ t) = some (x, rest ++ t) := by
  obtain ⟨hs, ht⟩ := readBraced_steady h
  refine ⟨hs, fun t => ?_⟩
  rw [List.length_append, Nat.add_right_comm]
  exact ht t t.length

theorem readHex_braced (digits : Nat) (s : List Char) :
    readHex false digits ('\x7b' :: s) = (readBraced false (s.length + 1) s).bind fun b =>
      if b.1.isEmpty then none
      else (b.1.mapM hexDigit?).bind fun values =>
        (charOfNumber? (values.foldl (fun value digit => 16 * value + digit) 0)).bind fun c =>
          some (c, b.2) := by
  simp only [readHex, skipBlanks_false]
  rfl

theorem readHex_digits (digits : Nat) (hc : c ≠ '\x7b') :
    readHex false digits (c :: s) = (readHexDigits false digits 0 (c :: s)).bind fun v =>
      (charOfNumber? v.1).bind fun c => some (c, v.2) := by
  simp [readHex, hc]

theorem readHex_steady (digits : Nat) : Steady (readHex false digits) s := by
  intro d rest h
  cases s with
  | nil => cases h
  | cons c s =>
    by_cases hc : c = '\x7b'
    · subst hc
      rw [readHex_braced] at h
      obtain ⟨⟨text, after⟩, hb, h⟩ := Option.bind_eq_some_iff.mp h
      obtain ⟨hs, ht⟩ := readBraced_length_steady hb
      split at h
      · cases h
      · rename_i hne
        obtain ⟨values, hv, h⟩ := Option.bind_eq_some_iff.mp h
        obtain ⟨e, hd, he⟩ := Option.bind_eq_some_iff.mp h
        cases he
        refine ⟨hs.trans (List.suffix_cons _ s), fun t => ?_⟩
        rw [List.cons_append, readHex_braced, ht t]
        simp only [Option.bind_some, hne, hv, hd, if_false, Bool.false_eq_true]
    · rw [readHex_digits digits hc] at h
      obtain ⟨⟨value, after⟩, hv, h⟩ := Option.bind_eq_some_iff.mp h
      obtain ⟨e, hd, he⟩ := Option.bind_eq_some_iff.mp h
      cases he
      obtain ⟨hs, ht⟩ := readHexDigits_steady digits 0 _ _ hv
      refine ⟨hs, fun t => ?_⟩
      simp only [List.cons_append] at ht ⊢
      simp only [readHex_digits digits hc, ht t, hd, Option.bind_some]

theorem readProperty_braced (s : List Char) :
    readProperty false ('\x7b' :: s) = (readBraced false (s.length + 1) s).bind fun b =>
      (namedProperty? b.1).bind fun set => some (set, b.2) := by
  simp only [readProperty, skipBlanks_false]
  rfl

theorem readProperty_letter (hc : c ≠ '\x7b') (hs : c ≠ '\\') :
    readProperty false (c :: s) = (property? [c]).bind fun set => some (set, s) := by
  simp [readProperty]

theorem readProperty_steady : Steady (readProperty false) s := by
  intro x rest h
  cases s with
  | nil => cases h
  | cons c s =>
    by_cases hc : c = '\x7b'
    · subst hc
      rw [readProperty_braced] at h
      obtain ⟨⟨text, after⟩, hb, h⟩ := Option.bind_eq_some_iff.mp h
      obtain ⟨set, hset, he⟩ := Option.bind_eq_some_iff.mp h
      cases he
      obtain ⟨hs, ht⟩ := readBraced_length_steady hb
      refine ⟨hs.trans (List.suffix_cons _ s), fun t => ?_⟩
      simp only [List.cons_append, readProperty_braced, ht t, hset, Option.bind_some]
    · by_cases hs : c = '\\'
      · subst hs
        simp [readProperty] at h
      · rw [readProperty_letter hc hs] at h
        obtain ⟨set, hset, he⟩ := Option.bind_eq_some_iff.mp h
        cases he
        refine ⟨List.suffix_cons c _, fun t => ?_⟩
        simp only [List.cons_append, readProperty_letter hc hs, hset, Option.bind_some]

theorem Steady.map {read : List Char → Option (α × List Char)} (h : Steady read s) (f : α → β)
    (hr : (read s).map (fun r => (f r.1, r.2)) = some (y, rest)) :
    rest <:+ s ∧ ∀ t, (read (s ++ t)).map (fun r => (f r.1, r.2)) = some (y, rest ++ t) := by
  obtain ⟨⟨x, after⟩, hx, he⟩ := Option.map_eq_some_iff.mp hr
  cases he
  obtain ⟨hs, ht⟩ := h x _ hx
  exact ⟨hs, fun t => by simp [ht t]⟩

def plainEscape (c : Char) (rest : List Char) : Option (Atom × List Char) :=
  match shortClass? c with
  | some set => some (.several set, rest)
  | none => if c.toNat < 0x80 && !c.isAlphanum then some (.one c, rest) else none

theorem readEscape_plain (hc : c ∉ "xuUpPaftnrvAzbB<>".toList) :
    readEscape false (c :: s) = plainEscape c s := by
  rw [readEscape, plainEscape]
  all_goals first | rfl | (rintro rfl; exact hc (by decide))

theorem plainEscape_steady (h : plainEscape c s = some (a, rest)) :
    rest = s ∧ ∀ t, plainEscape c t = some (a, t) := by
  unfold plainEscape at h ⊢
  split at h
  · cases h
    exact ⟨rfl, fun t => by simp [*]⟩
  · split at h
    · cases h
      exact ⟨rfl, fun t => by simp [*]⟩
    · cases h

theorem readEscape_steady (h : readEscape false s = some (a, rest)) (ha : ∀ l, a ≠ .place l) :
    rest <:+ s ∧ ∀ t, readEscape false (s ++ t) = some (a, rest ++ t) := by
  cases s with
  | nil => cases h
  | cons c s =>
    simp only [List.cons_append]
    have hcons := List.suffix_cons c s
    by_cases hc : c ∈ "xuUpPaftnrvAzbB<>".toList
    · simp only [String.reduceToList, List.mem_cons, List.not_mem_nil, or_false] at hc
      rcases hc with rfl | rfl | rfl | rfl | rfl | rfl | rfl | rfl | rfl | rfl | rfl | hc
      · exact ((readHex_steady 2).map Atom.one h).imp_left (·.trans hcons)
      · exact ((readHex_steady 4).map Atom.one h).imp_left (·.trans hcons)
      · exact ((readHex_steady 8).map Atom.one h).imp_left (·.trans hcons)
      · exact (readProperty_steady.map Atom.several h).imp_left (·.trans hcons)
      · exact (readProperty_steady.map (fun set => Atom.several (.compl set)) h).imp_left (·.trans hcons)
      iterate 6
        cases h
        exact ⟨List.suffix_cons _ _, fun t => rfl⟩
      rcases hc with rfl | rfl | rfl | rfl | rfl | rfl
      iterate 2
        cases h
        exact absurd rfl (ha _)
      · obtain ⟨⟨l, after⟩, -, he⟩ := Option.map_eq_some_iff.mp h
        cases he
        exact absurd rfl (ha l)
      iterate 3
        cases h
        exact absurd rfl (ha _)
    · rw [readEscape_plain hc] at h
      obtain ⟨rfl, ht⟩ := plainEscape_steady h
      refine ⟨List.suffix_cons c _, fun t => ?_⟩
      rw [readEscape_plain hc, ht]

-- ---------------------------------------------------------------------------
-- Items
-- ---------------------------------------------------------------------------

theorem readItem_char (hc : c ≠ '\\') : readItem false (c :: s) = some (.one c, s) := by
  rw [readItem]
  exact fun h => hc h

theorem readItem_steady (h : readItem false s = some (a, rest)) (ha : ∀ l, a ≠ .place l) :
    rest <:+ s ∧ ∀ t, readItem false (s ++ t) = some (a, rest ++ t) := by
  cases s with
  | nil => cases h
  | cons c s =>
    by_cases hc : c = '\\'
    · subst hc
      exact (readEscape_steady h ha).imp_left (·.trans (List.suffix_cons _ s))
    · rw [readItem_char hc] at h
      cases h
      exact ⟨List.suffix_cons c _, fun t => readItem_char hc⟩

theorem ne_place_of_toSet? {a : Atom} {members : CharSet} (h : a.toSet? = some members) : ∀ l, a ≠ .place l := by
  rintro l rfl
  cases h

def Atom.alone (first : Atom) (after : List Char) : Option (CharSet × List Char) :=
  first.toSet?.bind fun members => some (members, after)

def Atom.upTo (first last : Atom) (after : List Char) : Option (CharSet × List Char) :=
  match first, last with
  | .one a, .one b => if a ≤ b then some (.range a b, after) else none
  | _, _ => none

def rangeAfter (first : Atom) : List Char → Option (CharSet × List Char)
  | [] => none
  | c :: after =>
    if c = '-' then
      match after with
      | [] => none
      | d :: more =>
        if d = ']' ∨ d = '-' then first.alone ('-' :: d :: more)
        else (readItem false (d :: more)).bind fun last => first.upTo last.1 last.2
    else first.alone (c :: after)

theorem readRange_eq (s : List Char) :
    readRange false s = (readItem false s).bind fun first => rangeAfter first.1 first.2 := by
  rw [readRange]
  refine congrArg _ (funext fun ⟨first, after⟩ => ?_)
  simp only [skipBlanks_false]
  rcases after with _ | ⟨c, more⟩
  · rfl
  · by_cases hc : c = '-'
    · subst hc
      cases more <;> rfl
    · simp [rangeAfter, Atom.alone, hc]

theorem alone_steady {first : Atom} (h : first.alone after = some (x, rest)) :
    (∀ l, first ≠ .place l) ∧ rest = after ∧ ∀ t, first.alone t = some (x, t) := by
  obtain ⟨members, hm, he⟩ := Option.bind_eq_some_iff.mp h
  cases he
  exact ⟨ne_place_of_toSet? hm, rfl, fun t => by simp [Atom.alone, hm]⟩

theorem upTo_steady {first last : Atom} (h : first.upTo last after = some (x, rest)) :
    (∀ l, first ≠ .place l) ∧ (∀ l, last ≠ .place l) ∧ rest = after ∧
      ∀ t, first.upTo last t = some (x, t) := by
  cases first <;> cases last <;> simp only [Atom.upTo] at h
  case one a b =>
    split at h
    · cases h
      exact ⟨by simp, by simp, rfl, fun t => by simp [Atom.upTo, *]⟩
    · cases h
  all_goals cases h

theorem rangeAfter_steady {first : Atom} (h : rangeAfter first s = some (x, rest)) :
    (∀ l, first ≠ .place l) ∧ rest <:+ s ∧ ∀ t, rangeAfter first (s ++ t) = some (x, rest ++ t) := by
  cases s with
  | nil => cases h
  | cons c after =>
    by_cases hc : c = '-'
    · subst hc
      cases after with
      | nil => cases h
      | cons d more =>
        simp only [rangeAfter, if_true, List.cons_append] at h ⊢
        by_cases hd : d = ']' ∨ d = '-'
        · simp only [hd, if_true] at h ⊢
          obtain ⟨hp, rfl, ht⟩ := alone_steady h
          exact ⟨hp, List.suffix_rfl, fun t => ht _⟩
        · simp only [hd, if_false] at h ⊢
          obtain ⟨⟨last, behind⟩, hl, h⟩ := Option.bind_eq_some_iff.mp h
          obtain ⟨hp, hlp, rfl, ht⟩ := upTo_steady h
          obtain ⟨hs, hlt⟩ := readItem_steady hl hlp
          refine ⟨hp, hs.trans (List.suffix_cons _ _), fun t => ?_⟩
          rw [← List.cons_append, hlt t]
          exact ht _
    · simp only [rangeAfter, hc, if_false, List.cons_append] at h ⊢
      obtain ⟨hp, rfl, ht⟩ := alone_steady h
      exact ⟨hp, List.suffix_rfl, fun t => ht _⟩

theorem readRange_steady : Steady (readRange false) s := by
  intro x rest h
  rw [readRange_eq] at h
  obtain ⟨⟨first, after⟩, hf, h⟩ := Option.bind_eq_some_iff.mp h
  obtain ⟨hp, hs, ht⟩ := rangeAfter_steady h
  obtain ⟨hs', ht'⟩ := readItem_steady hf hp
  refine ⟨hs.trans hs', fun t => ?_⟩
  rw [readRange_eq, ht' t]
  exact ht t

theorem readRange_char (hc : c ≠ '\\') (hd : d ≠ '-') :
    readRange false (c :: d :: s) = some (.single c, d :: s) := by
  rw [readRange_eq, readItem_char hc]
  simp [rangeAfter, hd, Atom.alone, Atom.toSet?]

-- ---------------------------------------------------------------------------
-- ASCII classes
-- ---------------------------------------------------------------------------

theorem dropWhile_append_of_mem {p : Char → Bool} (hc : c ∈ s) (hp : p c = false) (t : List Char) :
    (s ++ t).dropWhile p = s.dropWhile p ++ t ∧ (s ++ t).takeWhile p = s.takeWhile p ∧
      c ∈ s.dropWhile p := by
  induction s with
  | nil => cases hc
  | cons d s ih =>
    by_cases hd : p d = true
    · rcases List.mem_cons.mp hc with rfl | hc
      · simp [hp] at hd
      · simpa [hd] using ih hc
    · simpa [hd] using hc

/-- The name of an ASCII class and the text behind its closing bracket, behind the colon. -/
def readAsciiName (negated : Bool) (s : List Char) : Option (CharSet × List Char) :=
  match s.dropWhile Char.isAlpha with
  | ':' :: ']' :: after =>
    (asciiClass? (String.ofList (s.takeWhile Char.isAlpha))).map fun members =>
      (if negated then .compl members else members, after)
  | _ => none

theorem readAsciiClass_colon (s : List Char) :
    readAsciiClass (':' :: s) =
      if s.head? = some '^' then readAsciiName true s.tail else readAsciiName false s := by
  rcases s with _ | ⟨c, s⟩
  · rfl
  · by_cases hc : c = '^'
    · subst hc; rfl
    · simp [readAsciiClass, hc]
      rfl

theorem readAsciiClass_of_ne (hc : c ≠ ':') : readAsciiClass (c :: s) = none := by
  rw [readAsciiClass]
  exact fun _ h => hc (List.cons.inj h).1

theorem readAsciiName_append (negated : Bool) (hs : ']' ∈ s) (t : List Char) :
    readAsciiName negated (s ++ t) = (readAsciiName negated s).map fun r => (r.1, r.2 ++ t) := by
  obtain ⟨hd, ht, hm⟩ := dropWhile_append_of_mem (p := Char.isAlpha) hs (by decide) t
  rw [readAsciiName, readAsciiName, hd, ht]
  generalize s.dropWhile Char.isAlpha = behind at hm ⊢
  rcases behind with _ | ⟨c, _ | ⟨d, more⟩⟩
  · cases hm
  · have hc : c = ']' := by simpa [eq_comm] using hm
    subst hc
    rfl
  · by_cases hc : c = ':' ∧ d = ']'
    · obtain ⟨rfl, rfl⟩ := hc
      cases asciiClass? (String.ofList (s.takeWhile Char.isAlpha)) <;> rfl
    · simp only [List.cons_append]
      split
      · rename_i he
        cases he
        exact absurd ⟨rfl, rfl⟩ hc
      · split
        · rename_i he
          cases he
          exact absurd ⟨rfl, rfl⟩ hc
        · rfl

theorem readAsciiClass_append (hs : ']' ∈ s) (t : List Char) :
    readAsciiClass (s ++ t) = (readAsciiClass s).map fun r => (r.1, r.2 ++ t) := by
  cases s with
  | nil => cases hs
  | cons c s =>
    by_cases hc : c = ':'
    · subst hc
      have hs : ']' ∈ s := by simpa using hs
      rw [List.cons_append, readAsciiClass_colon, readAsciiClass_colon]
      cases s with
      | nil => cases hs
      | cons d s =>
        by_cases hd : d = '^'
        · subst hd
          exact readAsciiName_append true (by simpa using hs) t
        · simpa [hd] using readAsciiName_append false hs t
    · rw [List.cons_append, readAsciiClass_of_ne hc, readAsciiClass_of_ne hc]
      rfl

theorem readAsciiName_suffix (h : readAsciiName negated s = some (x, rest)) : rest <:+ s := by
  rw [readAsciiName] at h
  split at h
  · rename_i after heq
    obtain ⟨members, -, he⟩ := Option.map_eq_some_iff.mp h
    cases he
    have hs := List.dropWhile_suffix (l := s) Char.isAlpha
    rw [heq] at hs
    exact ((List.suffix_cons ']' rest).trans (List.suffix_cons ':' _)).trans hs
  · cases h

theorem readAsciiClass_suffix (h : readAsciiClass s = some (x, rest)) : rest <:+ s := by
  cases s with
  | nil => cases h
  | cons c s =>
    by_cases hc : c = ':'
    · subst hc
      rw [readAsciiClass_colon] at h
      split at h
      · exact ((readAsciiName_suffix h).trans (List.tail_suffix s)).trans (List.suffix_cons _ s)
      · exact (readAsciiName_suffix h).trans (List.suffix_cons _ s)
    · rw [readAsciiClass_of_ne hc] at h
      cases h

-- ---------------------------------------------------------------------------
-- Steps inside brackets
-- ---------------------------------------------------------------------------

variable {current : OpenSet} {outer : List OpenSet}

theorem openSet_cons (c : Char) (s : List Char) :
    openSet false (c :: s) = if c = '^' then (⟨true, none, .empty, .start⟩, s)
      else (⟨false, none, .empty, .start⟩, c :: s) := by
  by_cases hc : c = '^'
  · subst hc; rfl
  · simp [openSet, hc]

theorem openSet_suffix (s : List Char) : (openSet false s).2 <:+ s := by
  cases s with
  | nil => exact List.suffix_rfl
  | cons c s =>
    rw [openSet_cons]
    split
    · exact List.suffix_cons c s
    · exact List.suffix_rfl

theorem openSet_append (hs : s ≠ []) (t : List Char) :
    openSet false (s ++ t) = ((openSet false s).1, (openSet false s).2 ++ t) := by
  cases s with
  | nil => exact absurd rfl hs
  | cons c s =>
    rw [List.cons_append, openSet_cons, openSet_cons]
    split <;> rfl

/-- Hyphens and a closing bracket at the start of a bracket, which stand for themselves. -/
def OpenSet.TakesLiterally (o : OpenSet) (c : Char) : Prop :=
  c = '-' ∧ o.edge ≠ .body ∨ c = ']' ∧ o.edge = .start

theorem classStep_literal (h : current.TakesLiterally c) :
    ∃ next, ∀ outer s, classStep false current outer (c :: s) = some (.inr (next, outer), s) := by
  rcases h with ⟨rfl, he⟩ | ⟨rfl, he⟩
  · exact ⟨current.add (.single '-') .hyphens, fun outer s => by simp [classStep, he]⟩
  · exact ⟨current.add (.single ']') .body, fun outer s => by simp [classStep, he]⟩

theorem classStep_open (current : OpenSet) (outer : List OpenSet) (s : List Char) :
    classStep false current outer ('[' :: s) =
      match readAsciiClass s with
      | some (members, after) => some (.inr (current.add members .body, outer), after)
      | none => some (.inr ((openSet false s).1, current :: outer), (openSet false s).2) := by
  cases h : readAsciiClass s <;> simp [classStep, h]

theorem classStep_close (h : current.edge ≠ .start) (outer : List OpenSet) (s : List Char) :
    classStep false current outer (']' :: s) =
      match outer with
      | [] => some (.inl current.close, s)
      | parent :: outer => some (.inr (parent.add current.close .body, outer), s) := by
  cases outer <;> simp [classStep, h]

def setOp? : Char → Option SetOp
  | '&' => some .inter
  | '-' => some .diff
  | '~' => some .symDiff
  | _ => none

theorem classStep_operator (h : ¬current.TakesLiterally c) (ho : setOp? c = some op)
    (outer : List OpenSet) (s : List Char) :
    classStep false current outer (c :: c :: s) = some (.inr (current.operator op, outer), s) := by
  unfold setOp? at ho
  split at ho
  · cases ho; simp [classStep]
  · cases ho
    have he : current.edge = .body := by simpa [OpenSet.TakesLiterally] using h
    simp [classStep, he]
  · cases ho; simp [classStep]
  · cases ho

theorem classStep_item (h : ¬current.TakesLiterally c) (hopen : c ≠ '[') (hclose : c ≠ ']')
    (ho : setOp? c = none ∨ s.head? ≠ some c) (outer : List OpenSet) :
    classStep false current outer (c :: s) =
      (readRange false (c :: s)).map fun r => (.inr (current.add r.1 .body, outer), r.2) := by
  obtain ⟨hhyphen, hbracket⟩ := not_or.mp h
  rw [classStep]
  simp only [skipBlanks_false, hhyphen, hbracket, if_false]
  split
  · exact absurd rfl hopen
  · exact absurd rfl hclose
  iterate 3 simp [setOp?] at ho
  · rfl

def isClassPlain (c : Char) : Bool := !(c matches '[' | ']' | '\\' | '-' | '&' | '~')

theorem isClassPlain_of_not_isMeta (h : isMeta c = false) : isClassPlain c := by
  unfold isClassPlain
  split
  all_goals first | rfl | cases h

theorem ne_of_isClassPlain (hc : isClassPlain c) (hd : isClassPlain d = false) : c ≠ d := by
  rintro rfl
  simp [hc] at hd

theorem classStep_plain (hc : isClassPlain c) (hd : d ≠ '-') (outer : List OpenSet) (s : List Char) :
    classStep false current outer (c :: d :: s) =
      some (.inr (current.add (.single c) .body, outer), d :: s) := by
  have hlit : ¬current.TakesLiterally c := by
    simp [OpenSet.TakesLiterally, ne_of_isClassPlain hc (d := '-') rfl,
      ne_of_isClassPlain hc (d := ']') rfl]
  have hop : setOp? c = none := by
    unfold setOp?
    split
    all_goals first | rfl | cases hc
  rw [classStep_item hlit (ne_of_isClassPlain hc rfl) (ne_of_isClassPlain hc rfl) (.inl hop),
    readRange_char (ne_of_isClassPlain hc rfl) hd]
  rfl

/-- A step is the same before any text, as long as a closing bracket is still to come. -/
structure SteadyStep (current : OpenSet) (outer : List OpenSet) (s : List Char)
    (x : CharSet ⊕ OpenSet × List OpenSet) (rest : List Char) : Prop where
  suffix : rest <:+ s
  closes : ∀ members, x = .inl members → ']' ∈ s
  before : ']' ∈ s → ∀ t, classStep false current outer (s ++ t) = some (x, rest ++ t)

theorem steady_literal (hlit : current.TakesLiterally c) (h : classStep false current outer (c :: s) = some (x, rest)) :
    SteadyStep current outer (c :: s) x rest := by
  obtain ⟨next, hnext⟩ := classStep_literal hlit
  rw [hnext] at h
  cases h
  exact ⟨List.suffix_cons c _, by simp, fun _ t => hnext outer _⟩

theorem steady_open (h : classStep false current outer ('[' :: s) = some (x, rest)) :
    SteadyStep current outer ('[' :: s) x rest := by
  rw [classStep_open] at h
  cases ha : readAsciiClass s with
  | some r =>
    simp only [ha] at h
    cases h
    refine ⟨(readAsciiClass_suffix ha).trans (List.suffix_cons _ s), by simp, fun hm t => ?_⟩
    rw [List.cons_append, classStep_open, readAsciiClass_append (by simpa using hm) t, ha]
    rfl
  | none =>
    simp only [ha] at h
    cases h
    refine ⟨(openSet_suffix s).trans (List.suffix_cons _ s), by simp, fun hm t => ?_⟩
    have hm : ']' ∈ s := by simpa using hm
    rw [List.cons_append, classStep_open, readAsciiClass_append hm t, openSet_append (List.ne_nil_of_mem hm) t, ha]
    rfl

theorem steady_close (hedge : current.edge ≠ .start) (h : classStep false current outer (']' :: s) = some (x, rest)) :
    SteadyStep current outer (']' :: s) x rest := by
  rw [classStep_close hedge] at h
  have hbefore (t : List Char) := classStep_close hedge outer (s ++ t)
  cases outer with
  | nil =>
    cases h
    exact ⟨List.suffix_cons _ _, by simp, fun _ t => hbefore t⟩
  | cons parent outer =>
    cases h
    exact ⟨List.suffix_cons _ _, by simp, fun _ t => hbefore t⟩

theorem steady_item (hlit : ¬ current.TakesLiterally c) (hopen : c ≠ '[') (hclose : c ≠ ']')
    (ho : setOp? c = none ∨ s.head? ≠ some c) (h : classStep false current outer (c :: s) = some (x, rest)) :
    SteadyStep current outer (c :: s) x rest := by
  rw [classStep_item hlit hopen hclose ho] at h
  obtain ⟨⟨members, after⟩, hr, he⟩ := Option.map_eq_some_iff.mp h
  cases he
  obtain ⟨hs, ht⟩ := readRange_steady _ _ hr
  refine ⟨hs, by simp, fun hm t => ?_⟩
  have hhead : (s ++ t).head? = s.head? := by
    cases s with
    | nil => exact absurd (by simpa [eq_comm] using hm) hclose
    | cons d s => rfl
  rw [List.cons_append, classStep_item hlit hopen hclose (hhead ▸ ho), ← List.cons_append, ht t]
  rfl

theorem steady_operator (hlit : ¬ current.TakesLiterally c) (hop : setOp? c = some op)
    (h : classStep false current outer (c :: c :: s) = some (x, rest)) :
    SteadyStep current outer (c :: c :: s) x rest := by
  rw [classStep_operator hlit hop] at h
  cases h
  exact ⟨(List.suffix_cons _ _).trans (List.suffix_cons _ _), by simp, fun _ t => classStep_operator hlit hop outer _⟩

theorem classStep_steady (h : classStep false current outer s = some (x, rest)) : SteadyStep current outer s x rest := by
  cases s with
  | nil => cases h
  | cons c s =>
    by_cases hlit : current.TakesLiterally c
    · exact steady_literal hlit h
    by_cases hopen : c = '['
    · subst hopen
      exact steady_open h
    by_cases hclose : c = ']'
    · subst hclose
      exact steady_close (fun he => hlit (.inr ⟨rfl, he⟩)) h
    by_cases ho : setOp? c = none ∨ s.head? ≠ some c
    · exact steady_item hlit hopen hclose ho h
    · obtain ⟨hop, hd⟩ := not_or.mp ho
      obtain ⟨op, hop⟩ := Option.ne_none_iff_exists'.mp hop
      obtain ⟨s, rfl⟩ := List.head?_eq_some_iff.mp (Decidable.not_not.mp hd)
      exact steady_operator hlit hop h

theorem classLoop_steady (h : classLoop false fuel current outer s = some (x, rest)) :
    ']' ∈ s ∧ rest <:+ s ∧
      ∀ t more, classLoop false (fuel + more) current outer (s ++ t) = some (x, rest ++ t) := by
  induction fuel generalizing current outer s with
  | zero => cases h
  | succ fuel ih =>
    rw [classLoop] at h
    cases hstep : classStep false current outer s with
    | none => simp [hstep] at h
    | some r =>
      obtain ⟨r, after⟩ := r
      obtain ⟨hs, hin, ht⟩ := classStep_steady hstep
      cases r with
      | inl members =>
        simp only [hstep] at h
        cases h
        have hm := hin _ rfl
        refine ⟨hm, hs, fun t more => ?_⟩
        rw [Nat.add_right_comm, classLoop, ht hm t]
      | inr next =>
        simp only [hstep] at h
        obtain ⟨hm, hs', ht'⟩ := ih h
        have hm := hs.mem hm
        refine ⟨hm, hs'.trans hs, fun t more => ?_⟩
        rw [Nat.add_right_comm, classLoop, ht hm t]
        exact ht' t more

theorem readClass_steady : Steady (readClass false) s := by
  intro x rest h
  rw [readClass] at h
  obtain ⟨hm, hs, ht⟩ := classLoop_steady h
  have hne : s ≠ [] := List.ne_nil_of_mem ((openSet_suffix s).mem hm)
  refine ⟨hs.trans (openSet_suffix s), fun t => ?_⟩
  rw [readClass, openSet_append hne]
  simp only [List.length_append]
  rw [Nat.add_right_comm]
  exact ht t t.length

end ContestTests.Regex
