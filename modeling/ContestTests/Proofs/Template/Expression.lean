import ContestTests.Proofs.Regex.Unclosed
import ContestTests.Proofs.Template.Splits

/-!
# The expression of a template

Read back, the expression of a template is the literal text and one group for each placeholder, between
the places at both ends. Its first match is the greatest split of the path. A letter of an alphabet
without letters leaves no expression at all.
-/

namespace ContestTests.Template

open ContestTests.Text ContestTests.Regex

variable {context : Context} {parts : List (List Char × Placeholder)} {literal tail path : List Char}
  {p : Placeholder} {cs : List (List Char)} {rs : List Regex} {before : Option Char} {caps out : Captures}

-- ---------------------------------------------------------------------------
-- Placeholders
-- ---------------------------------------------------------------------------

def Speaks (s : List Char) (L : List Char → Prop) : Prop :=
  ∃ rs, Fragment s rs ∧ Greedy L (sequence rs)

theorem greedy_sequence_one (h : Greedy L r) : Greedy L (sequence [r]) := h

theorem Speaks.congr (h : Speaks s L) (hL : ∀ s, L s ↔ L' s) : Speaks s L' := by
  obtain ⟨rs, hf, hg⟩ := h
  exact ⟨rs, hf, fun here => (hg here).congr fun s _ _ => hL s⟩

theorem speaks_nameRule {rule : NameRule} (h : rule.OneClass) : Speaks rule.expression rule.Admits := by
  cases rule with
  | chars body =>
    obtain ⟨members, hread⟩ := h
    refine Speaks.congr ⟨_, fragment_plus hread, greedy_plus⟩ fun s => ?_
    constructor
    · rintro ⟨hne, hs⟩
      exact ⟨members, hread, hne, hs⟩
    · rintro ⟨members', hread', hne, hs⟩
      rw [hread] at hread'
      cases hread'
      exact ⟨hne, hs⟩
  | fixed name => exact ⟨_, fragment_escape name.toList, greedy_literal name.toList⟩

theorem allIn_digitSet_iff {s : List Char} : AllIn digitSet true s ↔ AllDigits s :=
  forall₂_congr fun _ _ => mem_digitSet_iff

theorem readClass_digitSet : readClass false ("0-9".toList ++ [']']) = some (digitSet, []) :=
  readClass_digits []

theorem speaks_digits : Speaks "[0-9]+".toList fun s => s ≠ [] ∧ AllDigits s :=
  Speaks.congr ⟨_, fragment_plus readClass_digitSet, greedy_plus⟩
    fun _ => and_congr_right fun _ => allIn_digitSet_iff

theorem speaks_anyDigits : Speaks "[0-9]*".toList AllDigits :=
  Speaks.congr ⟨_, fragment_star readClass_digitSet, greedy_star⟩ fun _ => allIn_digitSet_iff

variable {a : Alphabet}

theorem readClass_alphabet (h : a.letters ≠ []) :
    readClass false (escape a.letters ++ [']']) = some (letterSet a.letters, []) :=
  readClass_letters h []

theorem isLetter_iff {s : List Char} :
    (∃ c, s = [c] ∧ (letterSet a.letters).mem true c) ↔ a.IsLetter s := by
  refine exists_congr fun c => and_congr_right fun _ => mem_letterSet_iff.trans ?_
  exact exists_congr fun _ => and_congr_right fun _ => eq_comm

theorem speaks_letter (h : a.letters ≠ []) : Speaks a.classText a.IsLetter :=
  Speaks.congr ⟨_, fragment_class (readClass_alphabet h), greedy_sequence_one greedy_char⟩
    fun _ => isLetter_iff

theorem speaks_anyLetter (h : a.letters ≠ []) :
    Speaks (a.classText ++ ['?']) fun s => a.IsLetter s ∨ s = [] := by
  have htext : a.classText ++ ['?'] = '[' :: escape a.letters ++ [']', '?'] := by
    simp [Alphabet.classText]
  rw [htext]
  exact Speaks.congr ⟨_, fragment_optional (readClass_alphabet h), greedy_sequence_one greedy_optional⟩
    fun _ => or_congr_left isLetter_iff

def Placeholder.Sound (context : Context) (p : Placeholder) : Prop :=
  p.field = .testLetter → context.letters.letters ≠ []

theorem speaks_test (hfield : p.field ≠ .taskName) (hp : p.Sound context) :
    Speaks (p.expression context) (p.Admits context) := by
  obtain ⟨field, presence⟩ := p
  cases field with
  | taskName => exact absurd rfl hfield
  | groupNumber => exact speaks_digits
  | testNumber =>
    cases presence with
    | required => exact speaks_digits
    | optional => exact speaks_anyDigits
  | testLetter =>
    cases presence with
    | required => exact speaks_letter (hp rfl)
    | optional => exact speaks_anyLetter (hp rfl)

theorem speaks_placeholder (hname : context.name.OneClass) (hp : p.Sound context) :
    Speaks (p.expression context) (p.Admits context) := by
  by_cases hfield : p.field = .taskName
  · obtain ⟨field, presence⟩ := p
    cases hfield
    exact speaks_nameRule hname
  · exact speaks_test hfield hp

-- ---------------------------------------------------------------------------
-- Parts
-- ---------------------------------------------------------------------------

/-- The groups of a match, the last one first. -/
def numbered (first : Nat) : List (List Char) → Captures
  | [] => []
  | c :: cs => numbered (first + 1) cs ++ [(first, c)]

/-- What is read of the parts of a template behind `groups` other groups. -/
inductive PartsRead (context : Context) :
    Nat → List (List Char × Placeholder) → List Regex → Prop
  | nil {groups : Nat} : PartsRead context groups [] []
  | cons {groups : Nat} {literal : List Char} {p : Placeholder} {parts : List (List Char × Placeholder)}
      {rs more : List Regex} (hf : Fragment (p.expression context) rs) (hg : Greedy (p.Admits context) (sequence rs))
      (hmore : PartsRead context (groups + 1) parts more) :
      PartsRead context groups ((literal, p) :: parts)
        (literal.map literalChar ++ .capture (groups + 1) (sequence rs) :: more)

theorem exists_partsRead (hname : context.name.OneClass) (groups : Nat)
    (hp : ∀ part ∈ parts, part.2.Sound context) : ∃ rs, PartsRead context groups parts rs := by
  induction parts generalizing groups with
  | nil => exact ⟨[], .nil⟩
  | cons part parts ih =>
    obtain ⟨rs, hf, hg⟩ := speaks_placeholder hname (hp part List.mem_cons_self)
    obtain ⟨more, hmore⟩ := ih (groups + 1) fun q hq => hp q (List.mem_cons_of_mem _ hq)
    exact ⟨_, .cons hf hg hmore⟩

def partText (context : Context) (part : List Char × Placeholder) : List Char :=
  escape part.1 ++ '(' :: part.2.expression context ++ [')']

/-- What is read of the parts where each placeholder is the inside of a group, and `R` holds of it. -/
inductive PartsInside (context : Context) (R : Placeholder → Regex → Prop) :
    Nat → List (List Char × Placeholder) → List Regex → Prop
  | nil {groups : Nat} : PartsInside context R groups [] []
  | cons {groups : Nat} {literal : List Char} {p : Placeholder} {parts : List (List Char × Placeholder)}
      {r : Regex} {more : List Regex} (hinside : Inside (p.expression context) r) (hr : R p r)
      (hmore : PartsInside context R (groups + 1) parts more) :
      PartsInside context R groups ((literal, p) :: parts)
        (literal.map literalChar ++ .capture (groups + 1) r :: more)

theorem PartsRead.inside (h : PartsRead context groups parts rs) :
    PartsInside context (fun p => Greedy (p.Admits context)) groups parts rs := by
  induction h with
  | nil => exact .nil
  | cons hf hg hmore ih => exact .cons hf.inside hg ih

variable {R : Placeholder → Regex → Prop}

theorem PartsInside.reads (h : PartsInside context R groups parts rs) (st : Reader)
    (hst : st.flags = ignoringCase) (hgroups : st.groups = groups) :
    Reads (parts.flatMap (partText context)) st (st.extend rs parts.length) := by
  induction h generalizing st with
  | nil => exact Reads.nil st
  | @cons groups literal p parts r more hinside hr hmore ih =>
    have hliteral := reads_escape st hst literal
    have hgroup := reads_inside (st.extend (literal.map literalChar) 0) hst hinside
    have hrest := ih ((st.extend (literal.map literalChar) 0).extend
      [.capture ((st.extend (literal.map literalChar) 0).groups + 1) r] 1) hst (by simp [hgroups])
    have hall := (hliteral.append hgroup).append hrest
    rw [List.flatMap_cons, partText, List.append_assoc]
    simpa [hgroups, Nat.add_comm] using hall

theorem PartsRead.reads (h : PartsRead context groups parts rs) (st : Reader)
    (hst : st.flags = ignoringCase) (hgroups : st.groups = groups) :
    Reads (parts.flatMap (partText context)) st (st.extend rs parts.length) :=
  h.inside.reads st hst hgroups

def finished : Cursor → Captures → Option Captures := fun _ caps => some caps

theorem run_textEnd : run (sequence [.look .textEnd]) ⟨before, path⟩ caps finished =
    if path = [] then some caps else none := by
  cases path <;> rfl

theorem run_end_eq_some_iff :
    run (sequence (tail.map literalChar ++ [.look .textEnd])) ⟨before, path⟩ caps finished = some out ↔
      SameFold path tail ∧ out = caps := by
  rw [run_sequence_append, run_literal_eq_some_iff]
  constructor
  · rintro ⟨l, t, rfl, hl, hnext⟩
    rw [Cursor.past, run_textEnd] at hnext
    split at hnext
    · rename_i ht
      cases hnext
      simpa [ht] using hl
    · cases hnext
  · rintro ⟨hpath, rfl⟩
    exact ⟨path, [], by simp, hpath, rfl⟩

theorem run_end_eq_none_iff :
    run (sequence (tail.map literalChar ++ [.look .textEnd])) ⟨before, path⟩ caps finished = none ↔
      ¬SameFold path tail := by
  rw [Option.eq_none_iff_forall_ne_some]
  simp only [ne_eq, run_end_eq_some_iff]
  exact ⟨fun h hpath => h caps ⟨hpath, rfl⟩, fun h _ hout => h hout.1⟩

def ended (tail : List Char) (rs : List Regex) : Regex :=
  sequence (rs ++ (tail.map literalChar ++ [.look .textEnd]))

theorem run_ended_cons (literal tail : List Char) (n : Nat) (a : Regex) (more : List Regex) :
    run (ended tail (literal.map literalChar ++ .capture n a :: more)) ⟨before, path⟩ caps finished =
      run (sequence (literal.map literalChar)) ⟨before, path⟩ caps fun here caps =>
        run (.capture n a) here caps fun here caps => run (ended tail more) here caps finished := by
  rw [ended, List.append_assoc, run_sequence_append]
  rfl

theorem PartsRead.eq_none_iff (h : PartsRead context groups parts rs) :
    run (ended tail rs) ⟨before, path⟩ caps finished = none ↔
      ∀ cs, ¬Splits context tail parts path cs := by
  induction h generalizing before path caps with
  | nil =>
    refine run_end_eq_none_iff.trans ?_
    exact ⟨fun h cs hcs => h hcs.1, fun h hpath => h [] ⟨hpath, rfl⟩⟩
  | @cons groups literal p parts rs more hf hg hmore ih =>
    rw [run_ended_cons, run_literal_eq_none_iff]
    simp only [run_capture_eq_none_iff hg]
    constructor
    · rintro h cs ⟨l, c, rest, cs', rfl, hl, hc, hrest, rfl⟩
      exact ih.mp (h l _ rfl hl c rest rfl hc) cs' hrest
    · intro h l t hlt hl c rest hcr hc
      refine ih.mpr fun cs' hcs' => h (c :: cs') ⟨l, c, rest, cs', ?_, hl, hc, hcs', rfl⟩
      rw [← hcr]
      exact hlt

theorem PartsRead.eq_some_iff (h : PartsRead context groups parts rs) :
    run (ended tail rs) ⟨before, path⟩ caps finished = some out ↔
      ∃ cs, Greatest context tail parts path cs ∧ out = numbered (groups + 1) cs ++ caps := by
  induction h generalizing before path caps with
  | nil =>
    refine run_end_eq_some_iff.trans ?_
    constructor
    · rintro ⟨hpath, rfl⟩
      refine ⟨[], ⟨⟨hpath, rfl⟩, ?_⟩, rfl⟩
      rintro cs' ⟨-, rfl⟩
      exact trivial
    · rintro ⟨cs, ⟨⟨hpath, rfl⟩, -⟩, rfl⟩
      exact ⟨hpath, rfl⟩
  | @cons groups literal p parts rs more hf hg hmore ih =>
    rw [run_ended_cons, run_literal_eq_some_iff]
    simp only [run_capture_eq_some_iff hg, Cursor.past_rest]
    constructor
    · rintro ⟨l, _, hlt, hl, c, rest, rfl, hc, hnext, hlong⟩
      obtain ⟨cs', hcs', rfl⟩ := ih.mp hnext
      obtain rfl : path = l ++ (c ++ rest) := hlt
      refine ⟨c :: cs', (greatest_cons hl).mpr ⟨c, rest, cs', rfl, hc, hcs', rfl, ?_⟩, by simp [numbered]⟩
      intro c' rest' hcr' hc' hlen
      exact hmore.eq_none_iff.mp (hlong c' rest' hcr' hc' hlen)
    · rintro ⟨cs, hcs, rfl⟩
      obtain ⟨l, _, rest₀, _, hpath, hl, -⟩ := hcs.1
      subst hpath
      obtain ⟨c, rest, cs', hcr, hc, hcs', rfl, hlong⟩ := (greatest_cons hl).mp hcs
      refine ⟨l, _, rfl, hl, c, rest, hcr, hc, ih.mpr ⟨cs', hcs', by simp [numbered]⟩, ?_⟩
      intro c' rest' hcr' hc' hlen
      exact hmore.eq_none_iff.mpr (hlong c' rest' hcr' hc' hlen)

theorem PartsRead.exists_greatest (h : PartsRead context groups parts rs)
    (hcs : Splits context tail parts path cs) : ∃ cs, Greatest context tail parts path cs := by
  cases hrun : run (ended tail rs) ⟨none, path⟩ [] finished with
  | none => exact absurd hcs (h.eq_none_iff.mp hrun cs)
  | some out =>
    obtain ⟨cs', hcs', -⟩ := h.eq_some_iff.mp hrun
    exact ⟨cs', hcs'⟩

-- ---------------------------------------------------------------------------
-- Whole templates
-- ---------------------------------------------------------------------------

variable {t : Template}

theorem expression_eq (context : Context) (t : Template) : t.expression context =
    "(?i)^".toList ++ (t.parts.flatMap (partText context) ++ escape t.tail) ++ ['$'] := by
  rw [← List.append_assoc]
  rfl

/-- Read back, the expression is the parts and the tail between the places at both ends. -/
theorem PartsInside.ofText?_expression (h : PartsInside context R 0 t.parts rs) :
    ofText? (t.expression context) = some (.cat (.look .textStart) (ended t.tail rs)) := by
  have hparts := h.reads .anchored rfl rfl
  have htail := reads_escape (Reader.anchored.extend rs t.parts.length) rfl t.tail
  have hall := hparts.append htail
  rw [extend_extend] at hall
  rw [expression_eq, ofText?_anchored hall, List.append_assoc]
  rfl

theorem search_ended (tail : List Char) (rs : List Regex) (path : List Char) :
    search (.cat (.look .textStart) (ended tail rs)) path = run (ended tail rs) ⟨none, path⟩ [] finished :=
  search_textStart (ended tail rs) path

theorem PartsRead.search_isSome_iff (h : PartsRead context groups parts rs) :
    (search (.cat (.look .textStart) (ended tail rs)) path).isSome ↔ ∃ cs, Splits context tail parts path cs := by
  rw [search_ended, ← Option.ne_none_iff_isSome, ne_eq, h.eq_none_iff]
  simp

theorem exists_ofText?_expression (hname : context.name.OneClass)
    (hp : ∀ part ∈ t.parts, part.2.Sound context) :
    ∃ regex, ofText? (t.expression context) = some regex ∧
      (∀ path, (regex.search path).isSome ↔ ∃ cs, Splits context t.tail t.parts path cs) ∧
      ∀ path caps, regex.search path = some caps ↔
        ∃ cs, Greatest context t.tail t.parts path cs ∧ caps = numbered 1 cs := by
  obtain ⟨rs, hrs⟩ := exists_partsRead hname 0 hp
  refine ⟨_, hrs.inside.ofText?_expression, fun path => hrs.search_isSome_iff, fun path caps => ?_⟩
  rw [search_ended, hrs.eq_some_iff]
  simp only [List.append_nil]

theorem inert_repeated (h : readClass false (body ++ [']']) = some (members, [])) (hop : isClassPlain op) :
    Inert ('[' :: body ++ [']', op]) := by
  have htext : '[' :: body ++ [']', op] = ('[' :: body ++ [']']) ++ [op] := by simp
  rw [htext]
  exact (inert_class h).append (inert_plain hop)

theorem inert_classText (a : Alphabet) : Inert a.classText := by
  by_cases h : a.letters = []
  · rw [Alphabet.classText, h]
    exact inert_noLetters
  · exact inert_class (readClass_alphabet h)

theorem inert_placeholder (hname : context.name.OneClass) (p : Placeholder) :
    Inert (p.expression context) := by
  obtain ⟨field, presence⟩ := p
  cases field with
  | taskName =>
    simp only [Placeholder.expression]
    cases hrule : context.name with
    | chars body =>
      rw [hrule] at hname
      obtain ⟨members, hread⟩ := hname
      exact inert_repeated hread rfl
    | fixed name => exact inert_escape name.toList
  | groupNumber => exact inert_repeated readClass_digitSet rfl
  | testNumber => cases presence <;> exact inert_repeated readClass_digitSet rfl
  | testLetter =>
    cases presence with
    | required => exact inert_classText context.letters
    | optional => exact (inert_classText context.letters).append (inert_plain rfl)

theorem inert_partText (hname : context.name.OneClass) (part : List Char × Placeholder) :
    Inert (partText context part) := by
  have hgroup := ((inert_plain (c := '(') rfl).append (inert_placeholder hname part.2)).append
    (inert_plain (c := ')') rfl)
  have htext : partText context part =
      escape part.1 ++ (['('] ++ part.2.expression context ++ [')']) := by simp [partText]
  rw [htext]
  exact (inert_escape part.1).append hgroup

/-- Behind the class of an alphabet without letters no bracket closes. -/
theorem unclosed_behind (hname : context.name.OneClass) (parts : List (List Char × Placeholder))
    (tail : List Char) : Unclosed (parts.flatMap (partText context) ++ escape tail ++ ['$']) :=
  (inert_flatMap fun part _ => inert_partText hname part).append (inert_escape tail) _ unclosed_textEnd

theorem expression_noLetters (h : context.letters.letters = []) (hp : p.field = .testLetter) :
    ∃ more, Inert more ∧ p.expression context = '[' :: ']' :: more := by
  obtain ⟨field, presence⟩ := p
  cases hp
  cases presence with
  | required => exact ⟨[], Inert.nil, by simp [Placeholder.expression, Alphabet.classText, h, escape]⟩
  | optional =>
    exact ⟨['?'], inert_plain rfl, by simp [Placeholder.expression, Alphabet.classText, h, escape]⟩

/-- A template that names letters is an expression only with an alphabet. -/
theorem sound_of_ofText? (hname : context.name.OneClass)
    (h : ofText? (t.expression context) = some regex) : ∀ part ∈ t.parts, part.2.Sound context := by
  by_cases hletters : context.letters.letters = []
  · cases hfind : t.parts.find? fun part => part.2.field = .testLetter with
    | none =>
      intro part hpart hfield
      have hnot := List.find?_eq_none.mp hfind part hpart
      simp [hfield] at hnot
    | some part =>
      obtain ⟨hfield, as, bs, hparts, has⟩ := List.find?_eq_some_iff_append.mp hfind
      obtain ⟨more, hmore, hexpr⟩ := expression_noLetters hletters (by simpa using hfield)
      have hsound : ∀ q ∈ as, q.2.Sound context := by
        intro q hq hqfield
        have hnot := has q hq
        simp [hqfield] at hnot
      obtain ⟨rs, hrs⟩ := exists_partsRead hname 0 hsound
      have hparts' := hrs.reads .anchored rfl rfl
      have hliteral := reads_escape (Reader.anchored.extend rs as.length) rfl part.1
      have hall := hparts'.append hliteral
      rw [extend_extend] at hall
      have hrest := (hmore.append (inert_plain (c := ')') rfl)) _ (unclosed_behind hname bs t.tail)
      have hnone := ofText?_noLetters hall hrest
      have htext : t.expression context = "(?i)^".toList ++ (as.flatMap (partText context) ++ escape part.1 ++
          '(' :: '[' :: ']' :: (more ++ [')'] ++ (bs.flatMap (partText context) ++ escape t.tail ++ ['$']))) := by
        rw [expression_eq, hparts]
        simp [partText, hexpr]
      rw [htext, hnone] at h
      cases h
  · exact fun _ _ _ => hletters

end ContestTests.Template
