import ContestTests.Proofs.Template.Grammar

/-!
# Names that are written out

A name can be written into the text of a template wherever the template asks for it. It becomes literal text, and if it
has no character that opens a placeholder, none comes about: so the text is a template again, with the placeholders
that do not stand for names.
-/

namespace ContestTests

-- ---------------------------------------------------------------------------
-- Replacing in a text
-- ---------------------------------------------------------------------------

namespace Text

variable {old new l s : List Char} {c : Char}

/-- Replaces every occurrence of a text behind so many characters, which are dropped. -/
def replaceBehind (old new : List Char) : Nat → List Char → List Char
  | _, [] => []
  | skip + 1, _ :: s => replaceBehind old new skip s
  | 0, c :: s =>
    if old.isPrefixOf (c :: s) then new ++ replaceBehind old new (old.length - 1) s
    else c :: replaceBehind old new 0 s

def replaceAll (old new s : List Char) : List Char := replaceBehind old new 0 s

theorem replaceBehind_length (l : List Char) : replaceBehind old new l.length (l ++ s) = replaceAll old new s := by
  induction l with
  | nil => rfl
  | cons c l ih => exact ih

theorem replaceAll_occurrence (h : old ≠ []) : replaceAll old new (old ++ s) = new ++ replaceAll old new s := by
  obtain ⟨c, rest, rfl⟩ := List.exists_cons_of_ne_nil h
  have hprefix : (c :: rest).isPrefixOf (c :: (rest ++ s)) :=
    List.isPrefixOf_iff_prefix.mpr (List.prefix_append (c :: rest) s)
  rw [replaceAll, List.cons_append, replaceBehind, if_pos hprefix]
  exact congrArg (new ++ ·) (replaceBehind_length rest)

theorem replaceAll_cons (h : ¬ old <+: c :: s) : replaceAll old new (c :: s) = c :: replaceAll old new s := by
  rw [replaceAll, replaceBehind, if_neg (fun hprefix => h (List.isPrefixOf_iff_prefix.mp hprefix))]
  rfl

theorem replaceAll_append (h : ∀ before c after, l = before ++ c :: after → ¬ old <+: c :: (after ++ s)) :
    replaceAll old new (l ++ s) = l ++ replaceAll old new s := by
  induction l with
  | nil => rfl
  | cons c l ih =>
    rw [List.cons_append, replaceAll_cons (h [] c l rfl), ih fun before d after hl => ?_]
    · rfl
    · exact h (c :: before) d after (by rw [hl]; rfl)

end Text

open Text

namespace Template

variable {s a b literal path tail name : List Char} {t : Template} {p : Placeholder} {part : List Char × Placeholder}
  {parts : List (List Char × Placeholder)} {letters : Alphabet}

-- ---------------------------------------------------------------------------
-- Names in a template
-- ---------------------------------------------------------------------------

def nameForm : String := "$\x7bTaskName\x7d"

def writtenOut (name template : String) : String :=
  String.ofList (replaceAll nameForm.toList name.toList template.toList)

def behind (literal : List Char) (t : Template) : Template :=
  match t.parts with
  | [] => ⟨[], literal ++ t.tail⟩
  | (first, p) :: parts => ⟨(literal ++ first, p) :: parts, t.tail⟩

def named (name : List Char) : List (List Char × Placeholder) → List Char → Template
  | [], tail => ⟨[], tail⟩
  | (literal, p) :: parts, tail =>
    let t := named name parts tail
    if p.field = .taskName then behind (literal ++ name) t else { t with parts := (literal, p) :: t.parts }

/-- Names that leave the openings of a template as they are. -/
def Unopened (name : List Char) : Prop := name ≠ [] ∧ ∀ c ∈ name, c ≠ '$' ∧ c ≠ '\x7b' ∧ c ≠ '['

theorem toText_behind (literal : List Char) (t : Template) : (behind literal t).toText = literal ++ t.toText := by
  obtain ⟨parts, tail⟩ := t
  cases parts with
  | nil => rfl
  | cons part parts => simp [behind, toText]

theorem nameForm_chars : nameForm.toList = '$' :: '\x7b' :: "TaskName\x7d".toList := by decide

theorem text_taskName (hallowed : p.allowed) (hfield : p.field = .taskName) : p.text = nameForm.toList := by
  obtain ⟨field, presence⟩ := p
  cases hfield
  cases presence with
  | required => rfl
  | optional => cases hallowed

theorem not_mem_text (p : Placeholder) : ∃ more, p.text = '$' :: more ∧ '$' ∉ more := by
  obtain ⟨field, presence⟩ := p
  cases field <;> cases presence <;> exact ⟨_, rfl, by decide⟩

/-- No other placeholder starts like the one for names. -/
theorem not_prefix_text (hfield : p.field ≠ .taskName) (s : List Char) : ¬ nameForm.toList <+: p.text ++ s := by
  rw [← List.isPrefixOf_iff_prefix]
  obtain ⟨field, presence⟩ := p
  cases field with
  | taskName => exact absurd rfl hfield
  | groupNumber => cases presence <;> exact Bool.false_ne_true
  | testNumber => cases presence <;> exact Bool.false_ne_true
  | testLetter => cases presence <;> exact Bool.false_ne_true

theorem replaceAll_text (hfield : p.field ≠ .taskName) : replaceAll nameForm.toList name (p.text ++ s) =
    p.text ++ replaceAll nameForm.toList name s := by
  refine replaceAll_append fun before c after hsplit hprefix => ?_
  obtain ⟨more, htext, hmore⟩ := not_mem_text p
  cases before with
  | nil =>
    refine not_prefix_text hfield s ?_
    rw [hsplit]
    exact hprefix
  | cons d before =>
    -- No dollar sign stands in a placeholder behind its first character.
    rw [htext] at hsplit
    obtain ⟨-, rfl⟩ := List.cons.inj hsplit
    rw [nameForm_chars, List.cons_prefix_cons] at hprefix
    exact hmore (by simp [← hprefix.1])

/-- A literal holds no opening, and ends before none that could be taken for one. -/
theorem replaceAll_literal (hliteral : ¬ HasOpening literal) (hs : ∀ c rest, s = c :: rest → c ≠ '\x7b') :
    replaceAll nameForm.toList name (literal ++ s) =
      literal ++ replaceAll nameForm.toList name s := by
  refine replaceAll_append fun before c after hsplit hprefix => ?_
  rw [nameForm_chars, List.cons_prefix_cons] at hprefix
  obtain ⟨rfl, hprefix⟩ := hprefix
  cases after with
  | nil =>
    obtain ⟨rest, hrest⟩ := hprefix
    exact hs _ _ hrest.symm rfl
  | cons d after =>
    rw [List.cons_append, List.cons_prefix_cons] at hprefix
    obtain ⟨rfl, -⟩ := hprefix
    exact hliteral ⟨.required, before, after, hsplit⟩

theorem replaceAll_toText (h : Spells ⟨parts, tail⟩ s) :
    replaceAll nameForm.toList name s = (named name parts tail).toText := by
  induction parts generalizing s with
  | nil =>
    obtain rfl : tail = s := h.text
    have hnone : replaceAll nameForm.toList name (tail ++ []) = tail ++ [] := replaceAll_literal h.tail (by simp)
    rw [List.append_nil] at hnone
    exact hnone
  | cons part parts ih =>
    obtain ⟨hliteral, hallowed, rest, rfl, hrest⟩ := h.tail_parts (t := ⟨parts, tail⟩)
    obtain ⟨literal, p⟩ := part
    obtain ⟨more, htext, -⟩ := not_mem_text p
    rw [List.append_assoc, replaceAll_literal hliteral (by simp [htext]), named]
    dsimp only
    split
    · rename_i hfield
      rw [text_taskName hallowed hfield, replaceAll_occurrence (by decide), ih hrest, toText_behind, List.append_assoc]
    · rename_i hfield
      rw [replaceAll_text hfield, ih hrest, toText_cons, List.append_assoc]

-- ---------------------------------------------------------------------------
-- Openings
-- ---------------------------------------------------------------------------

theorem not_hasOpening_append (ha : ¬ HasOpening a) (hb : ¬ HasOpening b)
    (hmeet : ∀ presence : Presence, a.getLast? = some '$' → b.head? ≠ some presence.opening) :
    ¬ HasOpening (a ++ b) := by
  rintro ⟨presence, before, after, h⟩
  rcases List.append_eq_append_iff.mp h with ⟨mid, -, hb'⟩ | ⟨mid, ha', hafter⟩
  · exact hb ⟨presence, mid, after, hb'⟩
  · rcases mid with _ | ⟨c, _ | ⟨d, mid⟩⟩
    · exact hb ⟨presence, [], after, hafter.symm⟩
    · obtain ⟨rfl, rfl⟩ := List.cons.inj hafter
      exact hmeet presence (by simp [ha']) rfl
    · obtain ⟨rfl, hrest⟩ := List.cons.inj hafter
      obtain ⟨rfl, -⟩ := List.cons.inj hrest
      exact ha ⟨presence, before, mid, ha'⟩

theorem not_hasOpening_named (hname : Unopened name) (ha : ¬ HasOpening a) (hb : ¬ HasOpening b) :
    ¬ HasOpening (a ++ name ++ b) := by
  obtain ⟨hne, hchars⟩ := hname
  obtain ⟨c, rest, rfl⟩ := List.exists_cons_of_ne_nil hne
  have hnone : ¬ HasOpening (c :: rest) := by
    rintro ⟨presence, before, after, h⟩
    exact (hchars '$' (by rw [h]; simp)).1 rfl
  rw [List.append_assoc]
  refine not_hasOpening_append ha (not_hasOpening_append hnone hb fun presence hlast => ?_) fun presence _ hhead => ?_
  · exact absurd rfl (hchars '$' (List.mem_of_getLast? hlast)).1
  · obtain ⟨-, hbrace, hbracket⟩ := hchars c List.mem_cons_self
    rw [List.cons_append, List.head?_cons, Option.some.injEq] at hhead
    cases presence with
    | required => exact hbrace hhead
    | optional => exact hbracket hhead

theorem Spells.behind (hname : Unopened name) (hliteral : ¬ HasOpening literal) (h : Spells t s) :
    Spells (behind (literal ++ name) t) (literal ++ name ++ s) := by
  have htext : (Template.behind (literal ++ name) t).toText = literal ++ name ++ s := by
    rw [toText_behind]
    exact congrArg _ h.text
  obtain ⟨parts, tail⟩ := t
  cases parts with
  | nil => exact ⟨htext, List.forall_mem_nil _, not_hasOpening_named hname hliteral h.tail, List.forall_mem_nil _⟩
  | cons part parts =>
    obtain ⟨hfirst, hliterals⟩ := List.forall_mem_cons.mp h.literals
    obtain ⟨hp, hplaceholders⟩ := List.forall_mem_cons.mp h.placeholders
    exact ⟨htext, List.forall_mem_cons.mpr ⟨not_hasOpening_named hname hliteral hfirst, hliterals⟩, h.tail,
      List.forall_mem_cons.mpr ⟨hp, hplaceholders⟩⟩

/-- With the name written out, a template is spelled by the text in which the name is written out. -/
theorem Spells.named (hname : Unopened name) (h : Spells ⟨parts, tail⟩ s) :
    Spells (named name parts tail) (named name parts tail).toText := by
  induction parts generalizing s with
  | nil => exact ⟨rfl, List.forall_mem_nil _, h.tail, List.forall_mem_nil _⟩
  | cons part parts ih =>
    obtain ⟨hliteral, hallowed, rest, -, hrest⟩ := h.tail_parts (t := ⟨parts, tail⟩)
    obtain ⟨literal, p⟩ := part
    have hmore := ih hrest
    rw [Template.named]
    split
    · rw [toText_behind]
      exact hmore.behind hname hliteral
    · exact ⟨rfl, List.forall_mem_cons.mpr ⟨hliteral, hmore.literals⟩, hmore.tail,
        List.forall_mem_cons.mpr ⟨mem_forms_iff.mpr hallowed, hmore.placeholders⟩⟩

theorem ofString_writtenOut {name template : String} (hname : Unopened name.toList)
    (ht : Template.ofString template = .ok t) :
    Template.ofString (writtenOut name template) = .ok (named name.toList t.parts t.tail) := by
  have hspells := spells_of_ofString ht
  refine ofString_of_spells ?_
  rw [writtenOut, String.toList_ofList, replaceAll_toText hspells]
  exact hspells.named hname

-- ---------------------------------------------------------------------------
-- Placeholders that are left
-- ---------------------------------------------------------------------------

theorem placeholders_behind (literal : List Char) (t : Template) :
    (Template.behind literal t).parts.map Prod.snd = t.parts.map Prod.snd := by
  obtain ⟨parts, tail⟩ := t
  cases parts <;> rfl

theorem placeholders_named (name : List Char) (parts : List (List Char × Placeholder)) (tail : List Char) :
    (Template.named name parts tail).parts.map Prod.snd = (parts.map Prod.snd).filter fun p => p.field ≠ .taskName := by
  induction parts with
  | nil => rfl
  | cons part parts ih =>
    rw [Template.named, List.map_cons, List.filter_cons]
    by_cases hfield : part.2.field = .taskName
    · simp only [hfield, if_true, placeholders_behind, ih, ne_eq, not_true_eq_false, decide_false, Bool.false_eq_true,
        if_false]
    · simp only [hfield, if_false, List.map_cons, ih, ne_eq, not_false_eq_true, decide_true, if_true]

theorem fields_named (name : List Char) (parts : List (List Char × Placeholder)) (tail : List Char) :
    (Template.named name parts tail).fields = (parts.map (·.2.field)).filter fun field => field ≠ .taskName := by
  have hfields := congrArg (List.map Placeholder.field) (placeholders_named name parts tail)
  have hparts : parts.map (·.2.field) = (parts.map Prod.snd).map Placeholder.field := List.map_map.symm
  rw [List.map_map] at hfields
  rw [hparts, List.filter_map]
  exact hfields

theorem of_mem_named (h : part ∈ (Template.named name parts tail).parts) :
    part.2.field ≠ .taskName ∧ ∃ other ∈ parts, other.2 = part.2 := by
  have hmem := List.mem_map_of_mem (f := Prod.snd) h
  rw [placeholders_named, List.mem_filter, List.mem_map] at hmem
  exact ⟨by simpa using hmem.2, hmem.1⟩

theorem expression_congr {rule rule' : NameRule} (h : ∀ part ∈ t.parts, part.2.field ≠ .taskName) :
    t.expression ⟨rule, letters⟩ = t.expression ⟨rule', letters⟩ := by
  rw [expression_eq, expression_eq]
  have hparts : t.parts.flatMap (partText ⟨rule, letters⟩) = t.parts.flatMap (partText ⟨rule', letters⟩) := by
    refine List.flatMap_congr fun part hpart => ?_
    obtain ⟨literal, field, presence⟩ := part
    cases field with
    | taskName => exact absurd rfl (h _ hpart)
    | groupNumber => rfl
    | testNumber => cases presence <;> rfl
    | testLetter => cases presence <;> rfl
  rw [hparts]

end Template

end ContestTests
