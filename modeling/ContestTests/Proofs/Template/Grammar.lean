import ContestTests.Proofs.Template.Rendering

/-!
# The grammar of templates

Literals without openings and placeholders of six forms, in turn, make a template, and no text is made in two
ways. A text that is no template is refused for the first of its openings that starts none of the forms.
-/

namespace ContestTests.Template

open ContestTests.Regex

variable {s literal before behind name rest mid : List Char} {presence other : Presence} {field : Field} {c d : Char}
  {t t' : Template} {fault : Fault} {p : Placeholder} {context : Context}

/-- What placeholders look like. -/
def forms : List String :=
  ["$\x7bTaskName\x7d", "$\x7bS\x7d", "$\x7bSS\x7d", "$\x7bSL\x7d", "$[SS]", "$[SL]"]

def HasOpening (s : List Char) : Prop :=
  ∃ (presence : Presence) (before behind : List Char), s = before ++ '$' :: presence.opening :: behind

def StartsForm (s : List Char) : Prop := ∃ form ∈ forms, form.toList <+: s

structure Spells (t : Template) (s : List Char) : Prop where
  text : t.parts.flatMap (fun (literal, p) => literal ++ p.text) ++ t.tail = s
  literals : ∀ part ∈ t.parts, ¬ HasOpening part.1
  tail : ¬ HasOpening t.tail
  placeholders : ∀ part ∈ t.parts, String.ofList part.2.text ∈ forms

/-- The first opening of a text that starts no form, with the text before it and behind it. -/
structure FirstFormless (s before : List Char) (presence : Presence) (behind : List Char) : Prop where
  text : s = before ++ '$' :: presence.opening :: behind
  formless : ¬ StartsForm ('$' :: presence.opening :: behind)
  first : ∀ (before' : List Char) (presence' : Presence) (behind' : List Char),
    s = before' ++ '$' :: presence'.opening :: behind' → before'.length < before.length →
      StartsForm ('$' :: presence'.opening :: behind')

/-- What is wrong with an opening at a byte that starts no form. -/
inductive Wrong (start : Nat) (presence : Presence) (behind : List Char) : Fault → Prop
  | unterminated (hopen : presence.closing ∉ behind) : Wrong start presence behind (.unterminated start)
  | unknownField {name rest : List Char} (hbehind : behind = name ++ presence.closing :: rest)
      (hfirst : presence.closing ∉ name) (hunknown : ∀ field : Field, field.name.toList ≠ name) :
      Wrong start presence behind (.unknownField (String.ofList name))
  | optionalNotAllowed {field : Field} {rest : List Char}
      (hbehind : behind = field.name.toList ++ presence.closing :: rest) :
      Wrong start presence behind (.optionalNotAllowed field.name)

-- ---------------------------------------------------------------------------
-- Openings
-- ---------------------------------------------------------------------------

theorem opening_injective (h : presence.opening = other.opening) : presence = other := by
  revert h
  cases presence <;> cases other <;> decide

theorem opening_ne_dollar (presence : Presence) : presence.opening ≠ '$' := by cases presence <;> decide

theorem closing_ne_dollar (presence : Presence) : presence.closing ≠ '$' := by cases presence <;> decide

theorem not_mem_name (field : Field) : '$' ∉ field.name.toList ∧ ∀ presence : Presence, presence.closing ∉ field.name.toList := by
  refine ⟨by cases field <;> decide, fun presence => ?_⟩
  cases presence <;> cases field <;> decide

theorem opening_at_start (hs : '$' :: presence.opening :: rest = before ++ '$' :: other.opening :: behind) :
    before = [] ∧ other = presence ∧ behind = rest ∨
      ∃ mid, before = '$' :: presence.opening :: mid ∧ rest = mid ++ '$' :: other.opening :: behind := by
  rcases before with _ | ⟨c, _ | ⟨d, mid⟩⟩
  · simp only [List.nil_append, List.cons.injEq, true_and] at hs
    exact .inl ⟨rfl, opening_injective hs.1.symm, hs.2.symm⟩
  · simp only [List.cons_append, List.nil_append, List.cons.injEq] at hs
    exact absurd hs.2.1 (opening_ne_dollar presence)
  · simp only [List.cons_append, List.cons.injEq] at hs
    obtain ⟨rfl, rfl, hrest⟩ := hs
    exact .inr ⟨mid, rfl, hrest⟩

/-- Every opening is the one that is found first or stands behind it. -/
theorem opening_cases (h : findOpening s = some (literal, presence, rest))
    (hs : s = before ++ '$' :: other.opening :: behind) :
    before = literal ∧ other = presence ∧ behind = rest ∨
      ∃ mid, before = literal ++ '$' :: presence.opening :: mid ∧ rest = mid ++ '$' :: other.opening :: behind := by
  induction s using findOpening.induct generalizing literal before with
  | case1 more =>
    cases h
    exact @opening_at_start _ _ _ .required _ hs
  | case2 more =>
    cases h
    exact @opening_at_start _ _ _ .optional _ hs
  | case3 c more hrequired hoptional ih =>
    rw [findOpening] at h
    · obtain ⟨⟨literal', found⟩, hfound, he⟩ := Option.map_eq_some_iff.mp h
      cases he
      cases before with
      | nil =>
        simp only [List.nil_append, List.cons.injEq] at hs
        obtain ⟨rfl, rfl⟩ := hs
        cases other with
        | required => exact absurd rfl (hrequired _ rfl)
        | optional => exact absurd rfl (hoptional _ rfl)
      | cons c' before =>
        simp only [List.cons_append, List.cons.injEq] at hs
        obtain ⟨rfl, hmore⟩ := hs
        rcases ih hfound hmore with ⟨rfl, hrest⟩ | ⟨mid, rfl, hrest⟩
        · exact .inl ⟨rfl, hrest⟩
        · exact .inr ⟨mid, rfl, hrest⟩
    · exact hrequired
    · exact hoptional
  | case4 => cases h

theorem hasOpening_of_findOpening (h : findOpening s = some (literal, presence, rest)) : HasOpening s :=
  ⟨presence, literal, rest, (findOpening_eq_some h).1⟩

theorem findOpening_eq_none_iff : findOpening s = none ↔ ¬ HasOpening s := by
  constructor
  · rintro h ⟨presence, before, behind, hs⟩
    induction s using findOpening.induct generalizing before with
    | case1 more => cases h
    | case2 more => cases h
    | case3 c more hrequired hoptional ih =>
      rw [findOpening] at h
      · cases before with
        | nil =>
          simp only [List.nil_append, List.cons.injEq] at hs
          obtain ⟨rfl, rfl⟩ := hs
          cases presence with
          | required => exact hrequired _ rfl rfl
          | optional => exact hoptional _ rfl rfl
        | cons c' before =>
          simp only [List.cons_append, List.cons.injEq] at hs
          exact ih (Option.map_eq_none_iff.mp h) before hs.2
      · exact hrequired
      · exact hoptional
    | case4 => simp at hs
  · intro h
    cases hfind : findOpening s with
    | none => rfl
    | some found => exact absurd (hasOpening_of_findOpening hfind) h

theorem findOpening_append (h : ¬ HasOpening literal) :
    findOpening (literal ++ '$' :: presence.opening :: behind) = some (literal, presence, behind) := by
  cases hfind : findOpening (literal ++ '$' :: presence.opening :: behind) with
  | none => exact absurd ⟨presence, literal, behind, rfl⟩ (findOpening_eq_none_iff.mp hfind)
  | some found =>
    obtain ⟨literal', presence', rest⟩ := found
    rcases opening_cases hfind rfl with ⟨rfl, rfl, rfl⟩ | ⟨mid, rfl, -⟩
    · rfl
    · exact absurd ⟨presence', literal', mid, rfl⟩ h

-- ---------------------------------------------------------------------------
-- Closings
-- ---------------------------------------------------------------------------

theorem cutAtChar_eq_none_iff : cutAtChar c s = none ↔ c ∉ s := by
  induction s with
  | nil => simp [cutAtChar]
  | cons d s ih =>
    rw [cutAtChar]
    split
    · rename_i hd
      simp [hd]
    · rename_i hd
      rw [Option.map_eq_none_iff, ih, List.mem_cons, not_or]
      exact ⟨fun h => ⟨Ne.symm hd, h⟩, And.right⟩

theorem cutAtChar_append (h : c ∉ name) : cutAtChar c (name ++ c :: rest) = some (name, rest) := by
  induction name with
  | nil => simp [cutAtChar]
  | cons d name ih =>
    obtain ⟨hd, hname⟩ := List.ne_and_not_mem_of_not_mem_cons h
    rw [List.cons_append, cutAtChar, if_neg (Ne.symm hd), ih hname]
    rfl

theorem not_mem_of_cutAtChar (h : cutAtChar c s = some (name, rest)) : c ∉ name := by
  induction s generalizing name with
  | nil => cases h
  | cons d s ih =>
    rw [cutAtChar] at h
    split at h
    · cases h
      exact List.not_mem_nil
    · rename_i hd
      obtain ⟨⟨before, after⟩, hcut, he⟩ := Option.map_eq_some_iff.mp h
      cases he
      exact List.not_mem_cons_of_ne_of_not_mem (Ne.symm hd) (ih hcut)

theorem eq_of_cut {name' rest' : List Char} (h : name ++ c :: rest = name' ++ c :: rest') (hname : c ∉ name)
    (hname' : c ∉ name') : name = name' ∧ rest = rest' := by
  have hcut : cutAtChar c (name ++ c :: rest) = some (name, rest) := cutAtChar_append hname
  rw [h, cutAtChar_append hname'] at hcut
  cases hcut
  exact ⟨rfl, rfl⟩

theorem exists_behind {more : List Char} (h : name ++ d :: rest = mid ++ c :: more) (hd : d ≠ c) (hname : c ∉ name) :
    ∃ mid', mid = name ++ d :: mid' ∧ rest = mid' ++ c :: more := by
  induction name generalizing mid with
  | nil =>
    cases mid with
    | nil => exact absurd (List.cons.inj h).1 hd
    | cons e mid =>
      obtain ⟨rfl, hrest⟩ := List.cons.inj h
      exact ⟨mid, rfl, hrest⟩
  | cons e name ih =>
    obtain ⟨he, hname⟩ := List.ne_and_not_mem_of_not_mem_cons hname
    cases mid with
    | nil => exact absurd (List.cons.inj h).1.symm he
    | cons e' mid =>
      obtain ⟨rfl, hrest⟩ := List.cons.inj h
      obtain ⟨mid', rfl, hmore⟩ := ih hrest hname
      exact ⟨mid', rfl, hmore⟩

-- ---------------------------------------------------------------------------
-- Forms
-- ---------------------------------------------------------------------------

theorem mem_forms_iff : String.ofList p.text ∈ forms ↔ p.allowed := by
  obtain ⟨field, presence⟩ := p
  cases presence <;> cases field <;> decide

theorem exists_of_mem_forms {form : String} (h : form ∈ forms) : ∃ p : Placeholder, p.allowed ∧ form.toList = p.text := by
  simp only [forms, List.mem_cons, List.not_mem_nil, or_false] at h
  rcases h with rfl | rfl | rfl | rfl | rfl | rfl
  · exact ⟨⟨.taskName, .required⟩, by decide⟩
  · exact ⟨⟨.groupNumber, .required⟩, by decide⟩
  · exact ⟨⟨.testNumber, .required⟩, by decide⟩
  · exact ⟨⟨.testLetter, .required⟩, by decide⟩
  · exact ⟨⟨.testNumber, .optional⟩, by decide⟩
  · exact ⟨⟨.testLetter, .optional⟩, by decide⟩

theorem startsForm_iff : StartsForm ('$' :: presence.opening :: behind) ↔ ∃ (field : Field) (rest : List Char),
    (Placeholder.mk field presence).allowed ∧ behind = field.name.toList ++ presence.closing :: rest := by
  constructor
  · rintro ⟨form, hform, rest, hrest⟩
    obtain ⟨⟨field, presence'⟩, hallowed, htext⟩ := exists_of_mem_forms hform
    rw [htext, Placeholder.text] at hrest
    simp only [List.cons_append, List.append_assoc, List.cons.injEq, true_and] at hrest
    obtain ⟨hopening, hbehind⟩ := hrest
    obtain rfl := opening_injective hopening
    exact ⟨field, rest, hallowed, hbehind.symm⟩
  · rintro ⟨field, rest, hallowed, rfl⟩
    refine ⟨_, mem_forms_iff.mpr hallowed, rest, ?_⟩
    simp [Placeholder.text]

theorem ofName?_name (field : Field) : Field.ofName? field.name.toList = some field := by cases field <;> decide

theorem name_injective {field' : Field} (h : field.name.toList = field'.name.toList) : field' = field := by
  have hfound := ofName?_name field'
  rw [← h, ofName?_name] at hfound
  exact (Option.some.inj hfound).symm

theorem ofName?_eq_none_iff : Field.ofName? name = none ↔ ∀ field : Field, field.name.toList ≠ name := by
  constructor
  · rintro h field rfl
    rw [ofName?_name] at h
    cases h
  · intro h
    cases hfind : Field.ofName? name with
    | none => rfl
    | some field => exact absurd (ofName?_eq_some hfind) (h field)

-- ---------------------------------------------------------------------------
-- Faults
-- ---------------------------------------------------------------------------

theorem byteLength_eq (s : List Char) : byteLength s = (String.ofList s).utf8ByteSize := by
  induction s with
  | nil => rfl
  | cons c s ih =>
    rw [byteLength, ih, show c :: s = [c] ++ s from rfl, String.ofList_append, String.utf8ByteSize_append]
    simp

theorem byteLength_append (s s' : List Char) : byteLength (s ++ s') = byteLength s + byteLength s' := by
  rw [byteLength_eq, byteLength_eq, byteLength_eq, String.ofList_append, String.utf8ByteSize_append]

/-- The dollar sign and the brackets of a placeholder have one byte each. -/
theorem byteLength_text (field : Field) (presence : Presence) :
    byteLength (Placeholder.text ⟨field, presence⟩) = byteLength field.name.toList + 3 := by
  cases presence <;> cases field <;> decide

/-- No opening stands before the one that is found, so it is the first that can fail. -/
theorem firstFormless_of_findOpening (h : findOpening s = some (literal, presence, behind))
    (hformless : ¬ StartsForm ('$' :: presence.opening :: behind)) : FirstFormless s literal presence behind := by
  refine ⟨(findOpening_eq_some h).1, hformless, fun before' presence' behind' hs hlt => ?_⟩
  rcases opening_cases h hs with ⟨rfl, -⟩ | ⟨mid, rfl, -⟩
  · exact absurd hlt (Nat.lt_irrefl _)
  · simp only [List.length_append, List.length_cons] at hlt
    omega

/-- A placeholder is passed over: behind it the first opening that starts no form stays the first. -/
theorem FirstFormless.behind_placeholder (h : FirstFormless rest before presence behind) (hliteral : ¬ HasOpening literal)
    (hp : p.allowed) : FirstFormless (literal ++ p.text ++ rest) (literal ++ p.text ++ before) presence behind := by
  obtain ⟨field, presence₀⟩ := p
  have htext (more : List Char) : literal ++ Placeholder.text ⟨field, presence₀⟩ ++ more =
      literal ++ '$' :: presence₀.opening :: (field.name.toList ++ presence₀.closing :: more) := by
    simp [Placeholder.text]
  refine ⟨by rw [h.text, List.append_assoc _ before], h.formless, fun before' presence' behind' hs hlt => ?_⟩
  rw [htext] at hs
  rcases opening_cases (findOpening_append hliteral) hs with ⟨rfl, rfl, rfl⟩ | ⟨mid, rfl, hmid⟩
  · exact startsForm_iff.mpr ⟨field, rest, hp, rfl⟩
  · obtain ⟨mid', rfl, hrest⟩ := exists_behind hmid (closing_ne_dollar presence₀) (not_mem_name field).1
    refine h.first mid' presence' behind' hrest ?_
    simp only [htext, List.length_append, List.length_cons] at hlt
    omega

theorem formless_of_open (hopen : presence.closing ∉ behind) : ¬ StartsForm ('$' :: presence.opening :: behind) := by
  intro hform
  obtain ⟨field, rest, -, rfl⟩ := startsForm_iff.mp hform
  simp at hopen

theorem formless_of_unknown (hname : presence.closing ∉ name) (hunknown : ∀ field : Field, field.name.toList ≠ name) :
    ¬ StartsForm ('$' :: presence.opening :: (name ++ presence.closing :: rest)) := by
  intro hform
  obtain ⟨field, rest', -, hbehind⟩ := startsForm_iff.mp hform
  obtain ⟨hsame, -⟩ := eq_of_cut hbehind hname ((not_mem_name field).2 presence)
  exact hunknown field hsame.symm

theorem formless_of_not_allowed (hnot : ¬ (Placeholder.mk field presence).allowed) :
    ¬ StartsForm ('$' :: presence.opening :: (field.name.toList ++ presence.closing :: rest)) := by
  intro hform
  obtain ⟨field', rest', hallowed, hbehind⟩ := startsForm_iff.mp hform
  obtain ⟨hsame, -⟩ := eq_of_cut hbehind ((not_mem_name field).2 presence) ((not_mem_name field').2 presence)
  exact hnot (name_injective hsame ▸ hallowed)

def FaultOf (start : Nat) (s : List Char) (fault : Fault) : Prop :=
  ∃ before presence behind, FirstFormless s before presence behind ∧ Wrong (start + byteLength before) presence behind fault

theorem FaultOf.behind_placeholder (h : FaultOf (start + byteLength literal + byteLength field.name.toList + 3) rest fault)
    (hliteral : ¬ HasOpening literal) (hallowed : (Placeholder.mk field presence).allowed) :
    FaultOf start (literal ++ '$' :: presence.opening :: (field.name.toList ++ presence.closing :: rest)) fault := by
  obtain ⟨before, presence', behind', hformless, hwrong⟩ := h
  have hpassed := hformless.behind_placeholder hliteral hallowed
  refine ⟨literal ++ Placeholder.text ⟨field, presence⟩ ++ before, presence', behind', ?_, ?_⟩
  · simpa [Placeholder.text] using hpassed
  · rw [byteLength_append, byteLength_append, byteLength_text, ← Nat.add_assoc, ← Nat.add_assoc, ← Nat.add_assoc]
    exact hwrong

theorem readParts_eq_error (h : readParts fuel start s = .error fault) (hfuel : s.length < fuel) :
    FaultOf start s fault := by
  induction fuel generalizing start s with
  | zero => omega
  | succ fuel ih =>
    rw [readParts] at h
    split at h
    · cases h
    rename_i literal presence behind hopening
    have hfirst := firstFormless_of_findOpening hopening
    obtain ⟨hs, hliteral⟩ := findOpening_eq_some hopening
    dsimp only at h
    split at h
    · rename_i hcut
      cases h
      have hopen := cutAtChar_eq_none_iff.mp hcut
      exact ⟨literal, presence, behind, hfirst (formless_of_open hopen), .unterminated hopen⟩
    rename_i name rest hcut
    have hname := not_mem_of_cutAtChar hcut
    obtain rfl := cutAtChar_eq_some hcut
    split at h
    · rename_i hfind
      cases h
      have hunknown := ofName?_eq_none_iff.mp hfind
      exact ⟨literal, presence, _, hfirst (formless_of_unknown hname hunknown), .unknownField rfl hname hunknown⟩
    rename_i field hfield
    obtain rfl := ofName?_eq_some hfield
    split at h
    · rename_i hallowed
      cases hread : readParts fuel (start + byteLength literal + byteLength field.name.toList + 3) rest with
      | ok t =>
        rw [hread] at h
        cases h
      | error fault' =>
        rw [hread] at h
        cases h
        have hrest : rest.length < fuel := by
          rw [hs] at hfuel
          simp only [List.length_append, List.length_cons] at hfuel
          omega
        rw [hs]
        exact (ih hread hrest).behind_placeholder (findOpening_eq_none_iff.mp hliteral) hallowed
    · rename_i hnot
      cases h
      refine ⟨literal, presence, _, hfirst (formless_of_not_allowed hnot), ?_⟩
      rw [String.ofList_toList]
      exact .optionalNotAllowed rfl

-- ---------------------------------------------------------------------------
-- Spelling
-- ---------------------------------------------------------------------------

theorem Spells.tail_parts {part : List Char × Placeholder} (h : Spells { t with parts := part :: t.parts } s) :
    ¬ HasOpening part.1 ∧ part.2.allowed ∧ ∃ rest, s = part.1 ++ part.2.text ++ rest ∧ Spells t rest := by
  obtain ⟨hliteral, hliterals⟩ := List.forall_mem_cons.mp h.literals
  obtain ⟨hp, hplaceholders⟩ := List.forall_mem_cons.mp h.placeholders
  refine ⟨hliteral, mem_forms_iff.mp hp, _, ?_, ⟨rfl, hliterals, h.tail, hplaceholders⟩⟩
  rw [← h.text]
  simp

theorem readParts_of_spells (h : Spells t s) (hfuel : s.length < fuel) (offset : Nat) : readParts fuel offset s = .ok t := by
  obtain ⟨parts, tail⟩ := t
  induction parts generalizing s fuel offset with
  | nil =>
    obtain ⟨fuel, rfl⟩ : ∃ n, fuel = n + 1 := ⟨fuel - 1, by omega⟩
    obtain rfl : tail = s := h.text
    rw [readParts, findOpening_eq_none_iff.mpr h.tail]
  | cons part parts ih =>
    obtain ⟨fuel, rfl⟩ : ∃ n, fuel = n + 1 := ⟨fuel - 1, by omega⟩
    obtain ⟨hliteral, hp, rest, rfl, hrest⟩ := h.tail_parts (t := ⟨parts, tail⟩)
    obtain ⟨literal, field, presence⟩ := part
    have htext : literal ++ Placeholder.text ⟨field, presence⟩ ++ rest =
        literal ++ '$' :: presence.opening :: (field.name.toList ++ presence.closing :: rest) := by
      simp [Placeholder.text]
    dsimp only at hfuel hp hliteral ⊢
    rw [htext] at hfuel ⊢
    have hcut : cutAtChar presence.closing (field.name.toList ++ presence.closing :: rest) =
        some (field.name.toList, rest) := cutAtChar_append ((not_mem_name field).2 presence)
    simp only [readParts, findOpening_append hliteral, hcut, ofName?_name, hp, if_true]
    rw [ih (by
      simp only [List.length_append, List.length_cons] at hfuel
      omega) _ hrest]
    rfl

theorem ofString_of_spells {template : String} (h : Spells t template.toList) : Template.ofString template = .ok t :=
  readParts_of_spells h (Nat.lt_succ_self _) 0

theorem spells_of_ofString {template : String} (h : Template.ofString template = .ok t) : Spells t template.toList := by
  obtain ⟨htext, hplain⟩ := ofString_eq_ok h
  exact ⟨htext, fun part hpart => findOpening_eq_none_iff.mp (hplain.parts part hpart).1,
    findOpening_eq_none_iff.mp hplain.tail, fun part hpart => mem_forms_iff.mpr (hplain.parts part hpart).2⟩

-- ---------------------------------------------------------------------------
-- Compiling
-- ---------------------------------------------------------------------------

open Pattern (compile)

theorem compiled_parts {template : String} {p : Pattern} (ht : Template.ofString template = .ok t)
    (hp : compile context template = .ok p) :
    p.template = template ∧ p.fields = t.fields ∧ p.expression = String.ofList (t.expression context) := by
  simp only [compile, ht] at hp
  split at hp
  · cases hp
  · split at hp
    · cases hp
      exact ⟨rfl, rfl, rfl⟩
    · cases hp

/-- A text compiles exactly if it is spelled by literals and placeholders, in the one way that there is; the fields and the
expression are those of the spelling. Otherwise the first opening that starts no form is at fault. -/
theorem compiles_iff_spelled (hname : context.name.OneClass) (hletters : context.letters.letters ≠ []) (template : String) :
    ((∃ p, compile context template = .ok p) ↔ ∃ t, Spells t template.toList) ∧
    (∀ t t', Spells t template.toList → Spells t' template.toList → t = t') ∧
    (∀ t p, Spells t template.toList → compile context template = .ok p →
      p.template = template ∧ p.fields = t.parts.map (fun part => part.2.field) ∧
        p.expression.toList = "(?i)^".toList ++
          t.parts.flatMap (fun part => escape part.1 ++ '(' :: part.2.expression context ++ [')']) ++
            escape t.tail ++ ['$']) ∧
    ∀ e, compile context template = .error e → e.template = template ∧
      ∃ before presence behind, FirstFormless template.toList before presence behind ∧
        Wrong (String.ofList before).utf8ByteSize presence behind e.fault := by
  have hcompiled (t : Template) (ht : Template.ofString template = .ok t) : ∃ p, compile context template = .ok p :=
    Pattern.exists_compile hname ht fun _ _ _ => hletters
  refine ⟨⟨fun ⟨p, hp⟩ => ?_, fun ⟨t, ht⟩ => hcompiled t (ofString_of_spells ht)⟩, fun t t' ht ht' => ?_,
    fun t p ht hp => ?_, fun e he => ?_⟩
  · obtain ⟨t, ht, -⟩ := Pattern.compile_eq_ok hp
    exact ⟨t, spells_of_ofString ht⟩
  · have hsame := (ofString_of_spells ht).symm.trans (ofString_of_spells ht')
    cases hsame
    rfl
  · obtain ⟨htemplate, hfields, hexpression⟩ := compiled_parts (ofString_of_spells ht) hp
    refine ⟨htemplate, hfields, ?_⟩
    rw [hexpression, String.toList_ofList]
    rfl
  · cases hread : Template.ofString template with
    | ok t =>
      obtain ⟨p, hp⟩ := hcompiled t hread
      rw [hp] at he
      cases he
    | error fault =>
      simp only [compile, hread] at he
      cases he
      obtain ⟨before, presence, behind, hfirst, hwrong⟩ := readParts_eq_error hread (Nat.lt_succ_self _)
      rw [Nat.zero_add, byteLength_eq] at hwrong
      exact ⟨rfl, before, presence, behind, hfirst, hwrong⟩

/-- A dollar sign before a placeholder, and an opening behind a letter of two bytes. -/
theorem compiles_iff_spelled_twoBytes :
    ((NameRule.chars "a-z").OneClass ∧ Alphabet.latin.letters ≠ []) ∧
      compile .default "$$\x7bS\x7dé$[SS" = .error ⟨"$$\x7bS\x7dé$[SS", .unterminated 7⟩ ∧
      (¬∃ t, Spells t "$$\x7bS\x7dé$[SS".toList) ∧
      ∃ before presence behind, FirstFormless "$$\x7bS\x7dé$[SS".toList before presence behind ∧
        Wrong (String.ofList before).utf8ByteSize presence behind (.unterminated 7) := by
  have hname : Context.default.name.OneClass := ⟨_, rfl⟩
  have hletters : Context.default.letters.letters ≠ [] := by decide
  have hcompile : compile .default "$$\x7bS\x7dé$[SS" = .error ⟨"$$\x7bS\x7dé$[SS", .unterminated 7⟩ := rfl
  obtain ⟨hspelled, -, -, hfault⟩ := compiles_iff_spelled hname hletters "$$\x7bS\x7dé$[SS"
  refine ⟨⟨hname, hletters⟩, hcompile, fun ht => ?_, (hfault _ hcompile).2⟩
  obtain ⟨p, hp⟩ := hspelled.mpr ht
  rw [hcompile] at hp
  cases hp

end ContestTests.Template
