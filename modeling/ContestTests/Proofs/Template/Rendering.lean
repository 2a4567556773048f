import ContestTests.Proofs.Template.Compiling
import ContestTests.Proofs.Text.Lowering

/-!
# Writing paths and reading them back

Where no placeholder could go on into what follows it, a path splits in one way. So a path that is written
after a template, with all numerals, letters and names of one record, is read as that record.
-/

namespace ContestTests

open ContestTests.Text ContestTests.Regex

-- ---------------------------------------------------------------------------
-- Splits in one way
-- ---------------------------------------------------------------------------

namespace Template

variable {context : Context} {parts : List (List Char × Placeholder)} {tail path : List Char} {p : Placeholder}
  {c c' rest rest' : List Char} {cs cs' : List (List Char)}

/-- The characters that names of several lengths are made of. -/
def NameRule.Takes : NameRule → Char → Prop
  | .chars body, c => ∃ members, readClass false (body.toList ++ [']']) = some (members, []) ∧ members.mem true c
  | .fixed _, _ => False

def Placeholder.Takes (context : Context) (p : Placeholder) (c : Char) : Prop :=
  match p.field, p.presence with
  | .taskName, _ => context.name.Takes c
  | .groupNumber, _ | .testNumber, _ => c.isDigit
  | .testLetter, .required => False
  | .testLetter, .optional => context.letters.IsLetter [c]

/-- No text that fits the rest of a template begins with a character that the placeholder before it takes. -/
def Unambiguous (context : Context) (tail : List Char) : List (List Char × Placeholder) → Prop
  | [] => True
  | (_, p) :: parts => (∀ c s cs, p.Takes context c → ¬Splits context tail parts (c :: s) cs) ∧
      Unambiguous context tail parts

theorem NameRule.takes_of_admits {rule : NameRule} (h : rule.Admits c) (h' : rule.Admits c')
    (hlt : c.length < c'.length) : ∀ d ∈ c', rule.Takes d := by
  cases rule with
  | chars body =>
    obtain ⟨members, hread, -, hin⟩ := h'
    exact fun d hd => ⟨members, hread, hin d hd⟩
  | fixed name =>
    have hlength : c.length = name.toList.length := h.length_eq
    have hlength' : c'.length = name.toList.length := h'.length_eq
    omega

/-- A placeholder that may stand for a shorter text takes all characters of the longer one. -/
theorem takes_of_admits (h : p.Admits context c) (h' : p.Admits context c') (hlt : c.length < c'.length) :
    ∀ d ∈ c', p.Takes context d := by
  obtain ⟨field, presence⟩ := p
  cases field with
  | taskName => exact NameRule.takes_of_admits h h' hlt
  | groupNumber => exact h'.2
  | testNumber =>
    cases presence with
    | required => exact h'.2
    | optional => exact h'
  | testLetter =>
    cases presence with
    | required =>
      obtain ⟨x, rfl, -⟩ := h
      obtain ⟨y, rfl, -⟩ := h'
      exact absurd hlt (Nat.lt_irrefl 1)
    | optional =>
      rcases h' with hletter | rfl
      · obtain ⟨x, rfl, hx⟩ := hletter
        intro d hd
        obtain rfl := List.mem_singleton.mp hd
        exact ⟨d, rfl, hx⟩
      · exact absurd hlt (Nat.not_lt_zero _)

/-- Where the rest splits behind a text, the placeholder has no longer one. -/
theorem length_le_of_splits (hclear : ∀ c s cs, p.Takes context c → ¬Splits context tail parts (c :: s) cs)
    (hc : p.Admits context c) (hc' : p.Admits context c') (hrest : Splits context tail parts rest cs)
    (he : c ++ rest = c' ++ rest') : c'.length ≤ c.length := by
  rcases List.append_eq_append_iff.mp he with ⟨more, rfl, rfl⟩ | ⟨more, rfl, -⟩
  · cases more with
    | nil => simp
    | cons d more =>
      have htakes := takes_of_admits hc hc' (by simp) d (by simp)
      exact absurd hrest (hclear d _ cs htakes)
  · simp

theorem splits_unique (hclear : Unambiguous context tail parts) (h : Splits context tail parts path cs)
    (h' : Splits context tail parts path cs') : cs' = cs := by
  induction parts generalizing path cs cs' with
  | nil => exact h'.2.trans h.2.symm
  | cons part parts ih =>
    obtain ⟨literal, p⟩ := part
    obtain ⟨hp, hparts⟩ := hclear
    obtain ⟨l, c, rest, ds, rfl, hl, hc, hds, rfl⟩ := h
    obtain ⟨c', rest', ds', he, hc', hds', rfl⟩ := (splits_cons hl).mp h'
    have hle := length_le_of_splits hp hc hc' hds he
    have hge := length_le_of_splits hp hc' hc hds' he.symm
    obtain ⟨rfl, rfl⟩ := List.append_inj he (Nat.le_antisymm hge hle)
    rw [ih hparts hds hds']

theorem noLonger_refl (ns : List Nat) : NoLonger ns ns := by
  induction ns with
  | nil => trivial
  | cons n ns ih => exact .inr ⟨rfl, ih⟩

theorem greatest_of_unambiguous (hclear : Unambiguous context tail parts) (h : Splits context tail parts path cs) :
    Greatest context tail parts path cs := by
  refine ⟨h, fun cs' h' => ?_⟩
  rw [splits_unique hclear h h']
  exact noLonger_refl _

/-- A literal text shows how what follows begins. -/
theorem fold_of_splits_cons {d e : Char} {literal s : List Char}
    (h : Splits context tail ((d :: literal, p) :: parts) (e :: s) cs) : fold e = fold d := by
  obtain ⟨l, c, rest, cs', he, hl, -⟩ := h
  obtain ⟨e', l', rfl, hfold, -⟩ := sameFold_cons.mp hl
  cases he
  exact hfold

-- ---------------------------------------------------------------------------
-- Paths that are written
-- ---------------------------------------------------------------------------

/-- Decimal digits of a number, perhaps behind zeros. -/
def IsNumeral (n : Nat) (c : List Char) : Prop := c ≠ [] ∧ AllDigits c ∧ ofDigits c = n

/-- The text says what the record says about the field. -/
def Writes (a : Alphabet) (r : Record) : Field → List Char → Prop
  | .taskName, c => c = r.taskName.toList
  | .groupNumber, c => IsNumeral r.group c
  | .testNumber, c => IsNumeral r.test c
  | .testLetter, c => ∃ letter, c = [letter] ∧ 1 ≤ r.test ∧ a.letters[r.test - 1]? = some letter

/-- A path with literal texts in either case and the texts `cs` for the placeholders, where each one that is
written says what the record says. -/
inductive Renders (a : Alphabet) (r : Record) (tail : List Char) :
    List (List Char × Placeholder) → List Char → List (List Char) → Prop
  | tail {s : List Char} (hs : sameIgnoringAsciiCase s tail) : Renders a r tail [] s []
  | written {literal l c s : List Char} {p : Placeholder} {parts : List (List Char × Placeholder)}
      {cs : List (List Char)} (hl : sameIgnoringAsciiCase l literal) (hc : Writes a r p.field c)
      (hmore : Renders a r tail parts s cs) : Renders a r tail ((literal, p) :: parts) (l ++ (c ++ s)) (c :: cs)
  | omitted {literal l s : List Char} {p : Placeholder} {parts : List (List Char × Placeholder)}
      {cs : List (List Char)} (hl : sameIgnoringAsciiCase l literal) (hp : p.presence = .optional)
      (hmore : Renders a r tail parts s cs) : Renders a r tail ((literal, p) :: parts) (l ++ ([] ++ s)) ([] :: cs)

variable {r : Record} {field : Field}

theorem admits_of_writes (h : Writes context.letters r p.field c)
    (hname : p.field = .taskName → context.name.Admits r.taskName.toList) : p.Admits context c := by
  obtain ⟨field, presence⟩ := p
  cases field with
  | taskName =>
    cases h
    exact hname rfl
  | groupNumber => exact ⟨h.1, h.2.1⟩
  | testNumber =>
    cases presence with
    | required => exact ⟨h.1, h.2.1⟩
    | optional => exact h.2.1
  | testLetter =>
    obtain ⟨letter, rfl, -, hletter⟩ := h
    have hmem : context.letters.IsLetter [letter] := ⟨letter, rfl, letter, List.mem_of_getElem? hletter, rfl⟩
    cases presence with
    | required => exact hmem
    | optional => exact .inl hmem

theorem required_of_allowed (h : p.allowed) (hfield : p.field = .groupNumber ∨ p.field = .taskName) :
    p.presence = .required := by
  obtain ⟨field, presence⟩ := p
  cases presence with
  | required => rfl
  | optional =>
    rcases hfield with hfield | hfield
    · cases hfield
      cases h
    · cases hfield
      cases h

theorem admits_nil (h : p.presence = .optional) (hallowed : p.allowed) : p.Admits context [] := by
  obtain ⟨field, presence⟩ := p
  cases h
  cases field with
  | taskName => cases hallowed
  | groupNumber => cases hallowed
  | testNumber => exact fun c hc => absurd hc List.not_mem_nil
  | testLetter => exact .inr rfl

/-- A path that is written splits into what was written. -/
theorem Renders.splits (h : Renders context.letters r tail parts path cs) (hallowed : ∀ part ∈ parts, part.2.allowed)
    (hname : ∀ part ∈ parts, part.2.field = .taskName → context.name.Admits r.taskName.toList) :
    Splits context tail parts path cs := by
  induction h with
  | tail hs => exact ⟨sameFold_of_sameIgnoringAsciiCase hs, rfl⟩
  | written hl hc hmore ih =>
    have hrest := ih (List.forall_mem_cons.mp hallowed).2 (List.forall_mem_cons.mp hname).2
    have hadmits := admits_of_writes hc (hname _ List.mem_cons_self)
    exact ⟨_, _, _, _, rfl, sameFold_of_sameIgnoringAsciiCase hl, hadmits, hrest, rfl⟩
  | omitted hl hp hmore ih =>
    have hrest := ih (List.forall_mem_cons.mp hallowed).2 (List.forall_mem_cons.mp hname).2
    have hallowed := (List.forall_mem_cons.mp hallowed).1
    exact ⟨_, _, _, _, rfl, sameFold_of_sameIgnoringAsciiCase hl, admits_nil hp hallowed, hrest, rfl⟩

variable {a : Alphabet}

theorem Renders.writes (h : Renders a r tail parts path cs) (hmem : (field, c) ∈ (parts.map (·.2.field)).zip cs)
    (hne : c ≠ []) : Writes a r field c := by
  induction h with
  | tail => cases hmem
  | written hl hc hmore ih =>
    rcases List.mem_cons.mp hmem with he | hmem
    · cases he
      exact hc
    · exact ih hmem
  | omitted hl hp hmore ih =>
    rcases List.mem_cons.mp hmem with he | hmem
    · cases he
      exact absurd rfl hne
    · exact ih hmem

theorem Renders.exists_written (h : Renders a r tail parts path cs) {part : List Char × Placeholder}
    (hpart : part ∈ parts) (hrequired : part.2.presence = .required) :
    ∃ c, (part.2.field, c) ∈ (parts.map (·.2.field)).zip cs ∧ Writes a r part.2.field c := by
  induction h with
  | tail => cases hpart
  | written hl hc hmore ih =>
    rcases List.mem_cons.mp hpart with rfl | hpart
    · exact ⟨_, List.mem_cons_self, hc⟩
    · obtain ⟨c, hmem, hwrites⟩ := ih hpart
      exact ⟨c, List.mem_cons_of_mem _ hmem, hwrites⟩
  | omitted hl hp hmore ih =>
    rcases List.mem_cons.mp hpart with rfl | hpart
    · cases hp.symm.trans hrequired
    · obtain ⟨c, hmem, hwrites⟩ := ih hpart
      exact ⟨c, List.mem_cons_of_mem _ hmem, hwrites⟩

end Template

namespace Pattern

open Template

-- ---------------------------------------------------------------------------
-- Reading back
-- ---------------------------------------------------------------------------

variable {a : Alphabet} {t : Template} {r : Record} {path : List Char} {field : Field} {cs : List (List Char)}

theorem exists_stated (hplain : t.Plain) (h : Renders a r t.tail t.parts path cs) (hmem : field ∈ t.fields)
    (hfield : field = .groupNumber ∨ field = .taskName) :
    ∃ c, Writes a r field c ∧ (c ≠ [] → (field, c) ∈ stated t.fields cs) := by
  obtain ⟨part, hpart, rfl⟩ := List.mem_map.mp hmem
  obtain ⟨c, hzip, hwrites⟩ := h.exists_written hpart (required_of_allowed (hplain.parts part hpart).2 hfield)
  exact ⟨c, hwrites, fun hne => List.mem_filter.mpr ⟨hzip, by simpa using hne⟩⟩

theorem tells_of_renders {letters : String} (hplain : t.Plain) (hgroup : .groupNumber ∈ t.fields)
    (hname : .taskName ∉ t.fields → r.taskName = "") (hbound : r.group < bound32) (hbound' : r.test < bound32)
    (h : Renders (.ofString letters) r t.tail t.parts r.path.toList cs)
    (htest : r.test = 1 ∨ ∃ c, (.testNumber, c) ∈ stated t.fields cs ∨ (.testLetter, c) ∈ stated t.fields cs) :
    Tells (.ofString letters) (stated t.fields cs) r.path r := by
  have hwrites {field : Field} {c : List Char} (hmem : (field, c) ∈ stated t.fields cs) :
      Writes (.ofString letters) r field c := by
    obtain ⟨hzip, hne⟩ := List.mem_filter.mp hmem
    exact h.writes hzip (by simpa using hne)
  refine ⟨rfl, ?_, fun c hc => ⟨(hwrites hc).2.2, hbound⟩, fun c hc => ⟨(hwrites hc).2.2, hbound'⟩, fun c hc => ?_,
    fun hnone => ?_, fun c hc => ?_, fun hnone => ?_⟩
  · obtain ⟨c, ⟨hne, -⟩, hc⟩ := exists_stated hplain h hgroup (.inl rfl)
    exact ⟨c, hc hne⟩
  · obtain ⟨letter, rfl, hpos, hletter⟩ := hwrites hc
    exact Alphabet.position?_letter hpos hletter
  · rcases htest with hone | ⟨c, hc⟩
    · exact hone
    · exact absurd hc (not_or.mpr (hnone c))
  · rw [show c = r.taskName.toList from hwrites hc, String.ofList_toList]
  · by_cases hmem : .taskName ∈ t.fields
    · -- The name is written, and it is empty, since nothing of it is stated.
      obtain ⟨_, rfl, hc⟩ := exists_stated hplain h hmem (.inr rfl)
      by_contra hne
      exact hnone _ (hc (by simpa using hne))
    · exact hname hmem

/-- A path that is written after an unambiguous template is read as the record it was written for. -/
theorem match_rendered {rule : NameRule} {letters template : String} (ht : Template.ofString template = .ok t)
    (hgroup : .groupNumber ∈ t.fields) (hrule : rule.OneClass)
    (hletters : .testLetter ∈ t.fields → (Alphabet.ofString letters).letters ≠ [])
    (hclear : Unambiguous ⟨rule, .ofString letters⟩ t.tail t.parts) (hbound : r.group < bound32)
    (hbound' : r.test < bound32)
    (hname : if .taskName ∈ t.fields then rule.Admits r.taskName.toList else r.taskName = "")
    (h : Renders (.ofString letters) r t.tail t.parts r.path.toList cs)
    (htest : r.test = 1 ∨ ∃ c, (.testNumber, c) ∈ stated t.fields cs ∨ (.testLetter, c) ∈ stated t.fields cs) :
    ∃ p, compile ⟨rule, .ofString letters⟩ template = .ok p ∧ p.match? r.path = some r := by
  have hplain := (ofString_eq_ok ht).2
  have hmem {part : List Char × Placeholder} (hpart : part ∈ t.parts) : part.2.field ∈ t.fields :=
    List.mem_map.mpr ⟨part, hpart, rfl⟩
  have hsound : ∀ part ∈ t.parts, part.2.Sound ⟨rule, .ofString letters⟩ := fun part hpart hfield =>
    hletters (hfield ▸ hmem hpart)
  have hadmits : ∀ part ∈ t.parts, part.2.field = .taskName → rule.Admits r.taskName.toList := by
    intro part hpart hfield
    rwa [if_pos (hfield ▸ hmem hpart)] at hname
  obtain ⟨p, hp⟩ := exists_compile hrule ht hsound
  have hsplits : Splits ⟨rule, .ofString letters⟩ t.tail t.parts r.path.toList cs :=
    h.splits (fun part hpart => (hplain.parts part hpart).2) hadmits
  have htells := tells_of_renders hplain hgroup (fun hnot => by rwa [if_neg hnot] at hname) hbound hbound' h htest
  exact ⟨p, hp, (match?_eq_some_iff hrule ht hp).mpr ⟨cs, greatest_of_unambiguous hclear hsplits, htells⟩⟩

def cows : Template :=
  ⟨[([], ⟨.taskName, .required⟩), (['.'], ⟨.groupNumber, .required⟩), (['-'], ⟨.testLetter, .optional⟩)], ".in".toList⟩

def secondCow : Record := ⟨"Cow.003-b.IN", "Cow", 3, 2⟩

theorem ofString_cows : Template.ofString "$\x7bTaskName\x7d.$\x7bS\x7d-$[SL].in" = .ok cows := by decide +kernel

theorem cows_unambiguous : Unambiguous .default cows.tail cows.parts := by
  refine ⟨fun c s cs hc h => ?_, fun c s cs hc h => ?_, fun c s cs hc h => ?_, trivial⟩
  · obtain rfl : c = '.' := eq_of_fold_eq (by decide) (fold_of_splits_cons h)
    obtain ⟨members, hread, hmem⟩ := hc
    cases hread
    revert hmem
    decide
  · obtain rfl : c = '-' := eq_of_fold_eq (by decide) (fold_of_splits_cons h)
    cases hc
  · obtain ⟨c', s', he, hfold, -⟩ := sameFold_cons.mp h.1
    cases he
    obtain rfl : c = '.' := eq_of_fold_eq (by decide) hfold
    obtain ⟨_, he, letter, hletter, hfold⟩ := hc
    cases he
    obtain rfl : letter = '.' := eq_of_fold_eq (by decide) hfold.symm
    revert hletter
    decide

theorem renders_secondCow : Renders .latin secondCow cows.tail cows.parts secondCow.path.toList
    ["Cow".toList, "003".toList, ['b']] := by
  have hname : Writes .latin secondCow .taskName "Cow".toList := rfl
  have hgroup : Writes .latin secondCow .groupNumber "003".toList := by
    have hdigits : "003".toList.all Char.isDigit := by decide
    exact ⟨by decide, List.all_eq_true.mp hdigits, by decide⟩
  have hletter : Writes .latin secondCow .testLetter ['b'] := ⟨'b', rfl, by decide, by decide⟩
  have hend : Renders .latin secondCow cows.tail [] ".IN".toList [] := .tail (by decide)
  have hrest := hend.written (l := ['-']) (p := ⟨.testLetter, .optional⟩) (beq_self_eq_true _) hletter
  have hall := hrest.written (l := ['.']) (p := ⟨.groupNumber, .required⟩) (beq_self_eq_true _) hgroup
  exact hall.written (l := []) (p := ⟨.taskName, .required⟩) rfl hname

/-- A name in either case, a group behind zeros and the second letter. -/
theorem match_rendered_cows :
    Unambiguous .default cows.tail cows.parts ∧
      Renders .latin secondCow cows.tail cows.parts secondCow.path.toList ["Cow".toList, "003".toList, ['b']] ∧
      ∃ p, compile .default "$\x7bTaskName\x7d.$\x7bS\x7d-$[SL].in" = .ok p ∧
        p.match? "Cow.003-b.IN" = some ⟨"Cow.003-b.IN", "Cow", 3, 2⟩ := by
  have hrule : (NameRule.chars defaultNameChars).OneClass := ⟨_, rfl⟩
  have hname : if .taskName ∈ cows.fields then (NameRule.chars defaultNameChars).Admits secondCow.taskName.toList
      else secondCow.taskName = "" := by
    rw [if_pos (by decide)]
    exact ⟨_, rfl, by decide, List.all_eq_true.mp (by decide)⟩
  refine ⟨cows_unambiguous, renders_secondCow, ?_⟩
  show ∃ p, compile ⟨.chars defaultNameChars, .ofString Alphabet.latinLetters⟩ _ = .ok p ∧ p.match? secondCow.path = _
  exact match_rendered ofString_cows (by decide) hrule (by decide) cows_unambiguous (by decide) (by decide) hname
    renders_secondCow (.inr ⟨['b'], .inr (by decide)⟩)

end Pattern

end ContestTests
