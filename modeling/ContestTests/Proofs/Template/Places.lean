import ContestTests.Proofs.Template.Covering
import ContestTests.Proofs.Text.Forms

/-!
# Letters that are read and letters that have a place

The class of an alphabet ignores case by folding, the place of a letter by lower-casing. Every character
that has a place is one of the class. The converse fails for the letters of several forms: the class of
the Latin letters takes `ſ`, which has no place, so that a path with this letter is matched and then dropped.
-/

namespace ContestTests.Template.Alphabet

open ContestTests.Text ContestTests.Regex

variable {a : Alphabet} {s : String} {x : Char}

/-- The class of the alphabet, in an expression that ignores case, takes the character. -/
def Accepts (a : Alphabet) (x : Char) : Prop :=
  ∃ regex, ofText? ("(?i)^(".toList ++ a.classText ++ ")$".toList) = some regex ∧ (regex.search [x]).isSome

-- ---------------------------------------------------------------------------
-- What the class takes
-- ---------------------------------------------------------------------------

def letterAlone : Template := ⟨[([], ⟨.testLetter, .required⟩)], []⟩

theorem expression_letterAlone (context : Context) : letterAlone.expression context =
    "(?i)^(".toList ++ context.letters.classText ++ ")$".toList := by
  rw [expression_eq]
  simp [letterAlone, partText, Placeholder.expression, escape]

theorem accepts_iff_isLetter (h : a.letters ≠ []) : a.Accepts x ↔ a.IsLetter [x] := by
  let context : Context := ⟨.fixed "", a⟩
  have hname : context.name.OneClass := trivial
  obtain ⟨rs, hrs⟩ : ∃ rs, PartsRead context 0 letterAlone.parts rs :=
    exists_partsRead hname 0 (by simp [letterAlone, Placeholder.Sound, context, h])
  have hregex : ofText? (letterAlone.expression context) = some (.cat (.look .textStart) (ended letterAlone.tail rs)) :=
    hrs.inside.ofText?_expression
  rw [expression_letterAlone] at hregex
  have hsearch : (search (.cat (.look .textStart) (ended letterAlone.tail rs)) [x]).isSome ↔ a.IsLetter [x] := by
    rw [hrs.search_isSome_iff]
    simp only [splits_iff_cuts]
    exact cuts_alone
  constructor
  · rintro ⟨regex, hr, hsome⟩
    obtain rfl := Option.some.inj (hregex.symm.trans hr)
    exact hsearch.mp hsome
  · exact fun hletter => ⟨_, hregex, hsearch.mpr hletter⟩

theorem accepts_iff (h : a.letters ≠ []) : a.Accepts x ↔ ∃ letter ∈ a.letters, fold letter = fold x := by
  rw [accepts_iff_isLetter h]
  simp [IsLetter, eq_comm]

-- ---------------------------------------------------------------------------
-- What has a place
-- ---------------------------------------------------------------------------

theorem position?_isSome_iff : (a.position? [x]).isSome ↔ ∃ letter ∈ a.letters, lowerChar x = [letter] := by
  rw [position?, List.flatMap_singleton]
  split
  · rename_i c hc
    simp [hc, List.isSome_idxOf?]
  · rename_i hc
    simp only [Option.isSome_none, Bool.false_eq_true, false_iff]
    rintro ⟨letter, -, he⟩
    exact hc letter he

theorem accepts_of_position? (h : a.letters ≠ []) (hx : (a.position? [x]).isSome) : a.Accepts x := by
  obtain ⟨letter, hletter, hlower⟩ := position?_isSome_iff.mp hx
  exact (accepts_iff h).mpr ⟨letter, hletter, fold_of_lowerChar hlower⟩

/-- What the class takes has a place, unless it folds to a letter of several forms. -/
theorem position?_of_accepts (h : (ofString s).letters ≠ []) (hx : (ofString s).Accepts x)
    (hforms : fold x ∉ severalForms) : ((ofString s).position? [x]).isSome := by
  obtain ⟨letter, hletter, hfold⟩ := (accepts_iff h).mp hx
  refine position?_isSome_iff.mpr ⟨letter, hletter, ?_⟩
  rw [← lowerChar_eq_of_fold hforms hfold, lowerChar_letter hletter]

/-- With each letter the alphabet has all lower-case letters that fold together with it. -/
def HasForms (a : Alphabet) : Prop :=
  ∀ letter ∈ a.letters, ∀ form, lowerChar form = [form] → fold form = fold letter → form ∈ a.letters

theorem hasForms_iff (h : (ofString s).letters ≠ []) : (ofString s).HasForms ↔
    ∀ x, (ofString s).Accepts x ↔ ((ofString s).position? [x]).isSome := by
  constructor
  · refine fun hforms x => ⟨fun hx => ?_, accepts_of_position? h⟩
    obtain ⟨letter, hletter, hfold⟩ := (accepts_iff h).mp hx
    obtain ⟨form, hlower, hform, hsame⟩ := exists_form (lowerChar_letter hletter) hfold.symm
    exact position?_isSome_iff.mpr ⟨form, hforms letter hletter form hform hsame, hlower⟩
  · intro hagree letter hletter form hform hfold
    have hplace := (hagree form).mp ((accepts_iff h).mpr ⟨letter, hletter, hfold.symm⟩)
    obtain ⟨c, hc, he⟩ := position?_isSome_iff.mp hplace
    obtain rfl := List.singleton_inj.mp (hform.symm.trans he)
    exact hc

theorem letters_singleton {c : Char} (hform : lowerChar c = [c]) (hblank : isBlank c = false) :
    (ofString (String.singleton c)).letters = [c] := by
  simp [ofString, hform, hblank, List.eraseDups_cons]

/-- What folds to a letter of several forms is exactly what some alphabet takes without a place. -/
theorem unplaced_iff : (∃ s, (ofString s).letters ≠ [] ∧ (ofString s).Accepts x ∧ (ofString s).position? [x] = none) ↔
    fold x ∈ severalForms := by
  constructor
  · rintro ⟨s, hs, hx, hnone⟩
    by_contra hforms
    simpa [hnone] using position?_of_accepts hs hx hforms
  · intro h
    obtain ⟨d, hfold, hform, hblank, hne⟩ := exists_otherForm h
    have hletters := letters_singleton hform hblank
    have hs : (ofString (.singleton d)).letters ≠ [] := by simp [hletters]
    refine ⟨.singleton d, hs, (accepts_iff hs).mpr ⟨d, by simp [hletters], hfold⟩, ?_⟩
    rw [← Option.not_isSome_iff_eq_none, position?_isSome_iff, hletters]
    simpa using hne

theorem latin_severalForms : (latin.letters.all fun letter => !severalForms.contains (fold letter) || letter == 's') = true := by
  decide

theorem long_s_alone : ((orbit 's').all fun c => (latin.position? [c]).isSome || c == 'ſ') = true := by decide

/-- Of all characters that the class of the Latin letters takes, `ſ` alone has no place. -/
theorem latin_unplaced_iff : latin.Accepts x ∧ latin.position? [x] = none ↔ x = 'ſ' := by
  have hletters : latin.letters ≠ [] := by decide
  constructor
  · rintro ⟨hx, hnone⟩
    obtain ⟨letter, hletter, hfold⟩ := (accepts_iff hletters).mp hx
    have hforms : fold letter ∈ severalForms := hfold ▸ unplaced_iff.mp ⟨latinLetters, hletters, hx, hnone⟩
    have hs := List.all_eq_true.mp latin_severalForms letter hletter
    obtain rfl : letter = 's' := by simpa [hforms] using hs
    have hlong := List.all_eq_true.mp long_s_alone x (mem_orbit_iff.mpr hfold.symm)
    simpa [hnone] using hlong
  · rintro rfl
    exact ⟨(accepts_iff hletters).mpr ⟨'s', by decide, by decide⟩, by decide⟩

end ContestTests.Template.Alphabet

-- ---------------------------------------------------------------------------
-- Paths
-- ---------------------------------------------------------------------------

namespace ContestTests.Pattern

open ContestTests.Text ContestTests.Regex ContestTests.Template

variable {context : Context} {template : String} {t : Template} {p : Pattern} {path text : List Char}
  {caps : Captures} {i : Nat} {s : String}

/-- What a group for a test letter reads, if it reads anything, is one letter of the class. -/
theorem isLetter_of_search (ht : Template.ofString template = .ok t)
    (halone : ∀ part ∈ t.parts, standsAlone (part.2.expression context)) (hp : compile context template = .ok p)
    (hsearch : p.regex.search path = some caps) (hfield : p.fields[i]? = some .testLetter)
    (htext : caps.lookup (i + 1) = some text) (hne : text ≠ []) : context.letters.IsLetter text := by
  obtain ⟨t', ht', hregex, hfields, -⟩ := compile_eq_ok hp
  cases ht.symm.trans ht'
  obtain ⟨cs, hcs, hlookup⟩ := covers_of_search halone hregex hsearch
  have hmem : (Field.testLetter, text) ∈ (t.parts.map (·.2.field)).zip cs := by
    refine List.mem_iff_getElem?.mpr ⟨i, ?_⟩
    rw [hfields, Template.fields] at hfield
    rw [List.getElem?_zip_eq_some]
    exact ⟨hfield, (hlookup i).symm.trans htext⟩
  obtain ⟨⟨field, presence⟩, rfl, hadmits⟩ := admits_of_cuts hcs hmem
  have hletter := hadmits (by simp)
  cases presence with
  | required => exact hletter
  | optional => exact hletter.resolve_right hne

/-- Each letter that a match reads for a test has a place, unless it folds to a letter of several forms. -/
def LettersPlaced (p : Pattern) : Prop :=
  ∀ path caps i text, p.regex.search path = some caps → p.fields[i]? = some .testLetter →
    caps.lookup (i + 1) = some text → text ≠ [] →
      ∃ x, text = [x] ∧ p.letters.Accepts x ∧ (fold x ∉ severalForms → (p.letters.position? text).isSome)

/-- The class of an alphabet takes whatever has a place, and what it takes has a place unless it folds to a
letter of several forms; each of those is taken without a place by some alphabet. The two agree on every
character exactly if the alphabet has all forms of its letters. A match reads as a test letter one character
of the class, so with the same exception it has a place. -/
theorem accepted_letters_placed (h : (Alphabet.ofString s).letters ≠ []) :
    (∀ x, ((Alphabet.ofString s).position? [x]).isSome → (Alphabet.ofString s).Accepts x) ∧
    (∀ x, (Alphabet.ofString s).Accepts x → fold x ∉ severalForms →
      ((Alphabet.ofString s).position? [x]).isSome) ∧
    (∀ x, fold x ∈ severalForms → ∃ s', (Alphabet.ofString s').letters ≠ [] ∧
      (Alphabet.ofString s').Accepts x ∧ (Alphabet.ofString s').position? [x] = none) ∧
    ((Alphabet.ofString s).HasForms ↔
      ∀ x, (Alphabet.ofString s).Accepts x ↔ ((Alphabet.ofString s).position? [x]).isSome) ∧
    ∀ context template t p, context.letters = Alphabet.ofString s → Template.ofString template = .ok t →
      (∀ part ∈ t.parts, standsAlone (part.2.expression context)) → compile context template = .ok p →
        p.LettersPlaced := by
  refine ⟨fun x => Alphabet.accepts_of_position? h, fun x => Alphabet.position?_of_accepts h,
    fun x => Alphabet.unplaced_iff.mpr, Alphabet.hasForms_iff h, ?_⟩
  intro context template t p hletters ht halone hp path caps i text hsearch hfield htext hne
  obtain ⟨x, rfl, letter, hletter, hfold⟩ := isLetter_of_search ht halone hp hsearch hfield htext hne
  obtain ⟨-, -, -, -, hpletters⟩ := compile_eq_ok hp
  rw [hletters] at hletter hpletters
  rw [hpletters]
  have hx : (Alphabet.ofString s).Accepts x := (Alphabet.accepts_iff h).mpr ⟨letter, hletter, hfold.symm⟩
  exact ⟨x, rfl, hx, Alphabet.position?_of_accepts h hx⟩

def groupAndLetter : Template := ⟨[([], ⟨.groupNumber, .required⟩), ([], ⟨.testLetter, .required⟩)], ".in".toList⟩

theorem ofString_groupAndLetter : Template.ofString "$\x7bS\x7d$\x7bSL\x7d.in" = .ok groupAndLetter := by
  decide +kernel

/-- The Latin letters with the Kelvin sign, whose lower-case form is `k`. -/
theorem accepted_letters_placed_latin : Alphabet.latin.letters ≠ [] ∧
    Alphabet.latin.position? ['\u212A'] = some 11 ∧ Alphabet.latin.Accepts '\u212A' ∧
    ∃ p, compile .default "$\x7bS\x7d$\x7bSL\x7d.in" = .ok p ∧ p.LettersPlaced := by
  have hletters : (Alphabet.ofString Alphabet.latinLetters).letters ≠ [] := by decide
  have hplace : Alphabet.latin.position? ['\u212A'] = some 11 := by decide
  have halone : ∀ part ∈ groupAndLetter.parts, standsAlone (part.2.expression .default) := by decide +kernel
  have hcompile : ∃ p, compile .default "$\x7bS\x7d$\x7bSL\x7d.in" = .ok p := ⟨_, rfl⟩
  obtain ⟨p, hp⟩ := hcompile
  obtain ⟨haccepts, -, -, -, hread⟩ := accepted_letters_placed hletters
  exact ⟨hletters, hplace, haccepts _ (Option.isSome_of_eq_some hplace), p, hp,
    hread .default _ groupAndLetter p rfl ofString_groupAndLetter halone hp⟩

/-- The class of the Latin letters takes `ſ`, which folds to `s`; but it is a lower-case letter of its own
without a place, and the path that was matched with it is dropped. -/
theorem long_s_unplaced : Alphabet.latin.letters ≠ [] ∧ Alphabet.latin.Accepts 'ſ' ∧
    Alphabet.latin.position? ['ſ'] = none ∧
    ∃ p, compile .default "$\x7bS\x7d$\x7bSL\x7d.in" = .ok p ∧
      p.regex.search "1ſ.in".toList = some [(2, ['ſ']), (1, ['1'])] ∧ p.match? "1ſ.in" = none :=
  ⟨by decide, ⟨_, rfl, by decide +kernel⟩, by decide, _, rfl, by decide +kernel, by decide +kernel⟩

end ContestTests.Pattern
