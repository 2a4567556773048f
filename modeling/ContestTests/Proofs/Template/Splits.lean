import ContestTests.Proofs.Regex.Matching
import ContestTests.Template.Basic

/-!
# Splits of a path

A template cuts a path into literal texts and the texts of its placeholders. Several cuts may fit;
the greatest one gives the first placeholder as much as any cut does, then the second one, and so on.
-/

namespace ContestTests.Template

open ContestTests.Text ContestTests.Regex

variable {context : Context} {parts : List (List Char × Placeholder)} {literal tail path l t : List Char}
  {p : Placeholder} {cs : List (List Char)}

def NameRule.Admits : NameRule → List Char → Prop
  | .chars body, s => ∃ members, readClass false (body.toList ++ [']']) = some (members, []) ∧
      s ≠ [] ∧ AllIn members true s
  | .fixed name, s => SameFold s name.toList

/-- The characters between the brackets are those of one class. -/
def NameRule.OneClass : NameRule → Prop
  | .chars body => ∃ members, readClass false (body.toList ++ [']']) = some (members, [])
  | .fixed _ => True

def AllDigits (s : List Char) : Prop := ∀ c ∈ s, c.isDigit

def Alphabet.IsLetter (a : Alphabet) (s : List Char) : Prop :=
  ∃ c, s = [c] ∧ ∃ letter ∈ a.letters, fold c = fold letter

def Placeholder.Admits (context : Context) (p : Placeholder) (s : List Char) : Prop :=
  match p.field, p.presence with
  | .taskName, _ => context.name.Admits s
  | .groupNumber, _ => s ≠ [] ∧ AllDigits s
  | .testNumber, .required => s ≠ [] ∧ AllDigits s
  | .testNumber, .optional => AllDigits s
  | .testLetter, .required => context.letters.IsLetter s
  | .testLetter, .optional => context.letters.IsLetter s ∨ s = []

/-- `cs` are the texts that a cut of the path gives to the placeholders. -/
def Splits (context : Context) (tail : List Char) :
    List (List Char × Placeholder) → List Char → List (List Char) → Prop
  | [], path, cs => SameFold path tail ∧ cs = []
  | (literal, p) :: parts, path, cs => ∃ l c rest cs', path = l ++ (c ++ rest) ∧ SameFold l literal ∧
      p.Admits context c ∧ Splits context tail parts rest cs' ∧ cs = c :: cs'

/-- The cuts that give each placeholder a text that `admits` allows it. -/
def Cuts (admits : Placeholder → List Char → Prop) (tail : List Char) :
    List (List Char × Placeholder) → List Char → List (List Char) → Prop
  | [], path, cs => SameFold path tail ∧ cs = []
  | (literal, p) :: parts, path, cs => ∃ l c rest cs', path = l ++ (c ++ rest) ∧ SameFold l literal ∧
      admits p c ∧ Cuts admits tail parts rest cs' ∧ cs = c :: cs'

variable {admits : Placeholder → List Char → Prop}

theorem splits_iff_cuts : Splits context tail parts path cs ↔ Cuts (Placeholder.Admits context) tail parts path cs := by
  induction parts generalizing path cs with
  | nil => exact Iff.rfl
  | cons part parts ih => simp only [Splits, Cuts, ih]

theorem cuts_alone : (∃ cs, Cuts admits [] [([], p)] path cs) ↔ admits p path := by
  constructor
  · rintro ⟨_, l, c, rest, _, hpath, hl, hc, ⟨hrest, rfl⟩, rfl⟩
    obtain rfl := sameFold_nil.mp hl
    obtain rfl := sameFold_nil.mp hrest
    rwa [hpath, List.nil_append, List.append_nil]
  · intro h
    exact ⟨_, [], path, [], [], (List.append_nil path).symm, sameFold_nil.mpr rfl, h, ⟨sameFold_nil.mpr rfl, rfl⟩, rfl⟩

theorem admits_of_cuts (h : Cuts admits tail parts path cs)
    (hmem : (field, c) ∈ (parts.map (·.2.field)).zip cs) : ∃ p : Placeholder, p.field = field ∧ admits p c := by
  induction parts generalizing path cs with
  | nil => cases hmem
  | cons part parts ih =>
    obtain ⟨l, d, rest, cs', -, -, hd, hrest, rfl⟩ := h
    rcases List.mem_cons.mp hmem with he | hmem
    · cases he
      exact ⟨part.2, rfl, hd⟩
    · exact ih hrest hmem

theorem length_of_cuts (h : Cuts admits tail parts path cs) : cs.length = parts.length := by
  induction parts generalizing path cs with
  | nil => exact congrArg List.length h.2
  | cons part parts ih =>
    obtain ⟨l, c, rest, cs', -, -, -, hrest, rfl⟩ := h
    rw [List.length_cons, List.length_cons, ih hrest]

/-- The first length that differs is smaller. -/
def NoLonger : List Nat → List Nat → Prop
  | [], _ => True
  | _ :: _, [] => False
  | n :: ns, m :: ms => n < m ∨ n = m ∧ NoLonger ns ms

/-- No cut gives more to a placeholder before it gives less to another. -/
def Greatest (context : Context) (tail : List Char) (parts : List (List Char × Placeholder))
    (path : List Char) (cs : List (List Char)) : Prop :=
  Splits context tail parts path cs ∧
    ∀ cs', Splits context tail parts path cs' → NoLonger (cs'.map List.length) (cs.map List.length)

theorem splits_cons (hl : SameFold l literal) :
    Splits context tail ((literal, p) :: parts) (l ++ t) cs ↔
      ∃ c rest cs', t = c ++ rest ∧ p.Admits context c ∧ Splits context tail parts rest cs' ∧
        cs = c :: cs' := by
  constructor
  · rintro ⟨l', c, rest, cs', hpath, hl', hc, hrest, rfl⟩
    obtain ⟨-, rfl⟩ := List.append_inj hpath (hl.length_eq.trans hl'.length_eq.symm)
    exact ⟨c, rest, cs', rfl, hc, hrest, rfl⟩
  · rintro ⟨c, rest, cs', rfl, hc, hrest, rfl⟩
    exact ⟨l, c, rest, cs', rfl, hl, hc, hrest, rfl⟩

/-- The first placeholder takes the most behind which the rest still splits. -/
theorem greatest_cons (hl : SameFold l literal) :
    Greatest context tail ((literal, p) :: parts) (l ++ t) cs ↔
      ∃ c rest cs', t = c ++ rest ∧ p.Admits context c ∧ Greatest context tail parts rest cs' ∧
        cs = c :: cs' ∧ ∀ c' rest', t = c' ++ rest' → p.Admits context c' → c.length < c'.length →
          ∀ cs'', ¬Splits context tail parts rest' cs'' := by
  simp only [Greatest, splits_cons hl]
  constructor
  · rintro ⟨⟨c, rest, cs', rfl, hc, hrest, rfl⟩, hmax⟩
    refine ⟨c, rest, cs', rfl, hc, ⟨hrest, fun cs'' hcs'' => ?_⟩, rfl, ?_⟩
    · have hle := hmax (c :: cs'') ⟨c, rest, cs'', rfl, hc, hcs'', rfl⟩
      simpa [NoLonger] using hle
    · intro c' rest' hrest' hc' hlen cs'' hcs''
      have hle := hmax (c' :: cs'') ⟨c', rest', cs'', hrest', hc', hcs'', rfl⟩
      simp only [List.map_cons, NoLonger] at hle
      omega
  · rintro ⟨c, rest, cs', rfl, hc, ⟨hrest, hmax⟩, rfl, hlong⟩
    refine ⟨⟨c, rest, cs', rfl, hc, hrest, rfl⟩, ?_⟩
    rintro _ ⟨c', rest', cs'', hrest', hc', hcs'', rfl⟩
    simp only [List.map_cons, NoLonger]
    rcases Nat.lt_trichotomy c'.length c.length with hlt | heq | hgt
    · exact .inl hlt
    · obtain ⟨rfl, rfl⟩ := List.append_inj hrest' heq.symm
      exact .inr ⟨rfl, hmax _ hcs''⟩
    · exact absurd hcs'' (hlong c' rest' hrest' hc' hgt cs'')

theorem greatest_unique (h : Greatest context tail parts path cs) (h' : Greatest context tail parts path cs') :
    cs' = cs := by
  induction parts generalizing path cs cs' with
  | nil => exact h'.1.2.trans h.1.2.symm
  | cons part parts ih =>
    obtain ⟨literal, p⟩ := part
    obtain ⟨l, c₀, rest₀, -, rfl, hl, -⟩ := h.1
    obtain ⟨c, rest, ds, hsplit, hc, hds, rfl, hlong⟩ := (greatest_cons hl).mp h
    obtain ⟨c', rest', ds', hsplit', hc', hds', rfl, hlong'⟩ := (greatest_cons hl).mp h'
    rcases Nat.lt_trichotomy c.length c'.length with hlt | heq | hgt
    · exact absurd hds'.1 (hlong c' rest' hsplit' hc' hlt ds')
    · obtain ⟨rfl, rfl⟩ := List.append_inj (hsplit.symm.trans hsplit') heq
      rw [ih hds hds']
    · exact absurd hds.1 (hlong' c rest hsplit hc hgt ds)

theorem admits_of_splits (h : Splits context tail parts path cs)
    (hmem : (field, c) ∈ (parts.map (·.2.field)).zip cs) :
    ∃ p : Placeholder, p.field = field ∧ p.Admits context c :=
  admits_of_cuts (splits_iff_cuts.mp h) hmem

theorem allDigits_of_admits (h : p.Admits context c)
    (hfield : p.field = .groupNumber ∨ p.field = .testNumber) : AllDigits c := by
  obtain ⟨field, presence⟩ := p
  rcases hfield with hfield | hfield
  · cases hfield
    exact h.2
  · cases hfield
    cases presence with
    | required => exact h.2
    | optional => exact h

theorem length_of_splits (h : Splits context tail parts path cs) : cs.length = parts.length :=
  length_of_cuts (splits_iff_cuts.mp h)

end ContestTests.Template
