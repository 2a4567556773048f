import ContestTests.Proofs.Regex.Alone
import ContestTests.Proofs.Regex.Soundness
import ContestTests.Proofs.Template.Matching

/-!
# Patterns that cover the whole path

Where the expression of every placeholder stands alone, a match is a cut of the whole path, and the groups
are the texts of the cut. The number of the groups alone does not tell: characters of task names that close
their class and the group around it can leave that number as it is.
-/

namespace ContestTests.Pattern

open ContestTests.Text ContestTests.Regex ContestTests.Template

variable {context : Context} {parts : List (List Char × Placeholder)} {tail path : List Char} {p : Placeholder}
  {cs : List (List Char)} {rs : List Regex} {r : Regex} {before : Option Char} {caps out : Captures}
  {L : List Char → Prop}

/-- The placeholder may stand for the text; of names nothing is said. -/
def TestAdmits (context : Context) (p : Placeholder) (c : List Char) : Prop :=
  p.field ≠ .taskName → p.Admits context c

/-- The path is the literal texts and the texts `cs`; only what a task name may be is left open. -/
def Covers (context : Context) : List Char → List (List Char × Placeholder) → List Char → List (List Char) → Prop :=
  Cuts (TestAdmits context)

-- ---------------------------------------------------------------------------
-- Groups that count
-- ---------------------------------------------------------------------------

def counted (caps : Captures) : Captures := caps.filter fun group => group.1 ≠ 0

theorem counted_cons (n : Nat) (c : List Char) (caps : Captures) :
    counted ((n + 1, c) :: caps) = (n + 1, c) :: counted caps := by
  simp [counted]

theorem lookup_counted (caps : Captures) (n : Nat) : (counted caps).lookup (n + 1) = caps.lookup (n + 1) := by
  induction caps with
  | nil => rfl
  | cons group caps ih =>
    obtain ⟨_ | m, c⟩ := group
    · have hdrop : counted ((0, c) :: caps) = counted caps := by simp [counted]
      rw [hdrop, ih]
      rfl
    · rw [counted_cons, List.lookup_cons, List.lookup_cons, ih]

def ReadsOnly (L : List Char → Prop) (r : Regex) : Prop :=
  ∀ here caps next out, r.run here caps next = some out → ∃ s t caps', here.rest = s ++ t ∧ L s ∧
    counted caps' = counted caps ∧ next (here.past s t) caps' = some out

theorem readsOnly_of_greedy (h : Greedy L r) : ReadsOnly L r := by
  intro here caps next out hout
  obtain ⟨s, t, hst, hs, hnext, -⟩ := (h here caps next out).mp hout
  exact ⟨s, t, caps, hst, hs, rfl, hnext⟩

theorem readsOnly_of_maxCapture (h : r.maxCapture = 0) : ReadsOnly (fun _ => True) r := by
  intro here caps next out hout
  obtain ⟨s, t, new, hst, hnew, hnext⟩ := advances_run r here caps next out hout
  have hzero : counted new = [] := by
    refine List.filter_eq_nil_iff.mpr fun group hgroup => ?_
    have hle := hnew group hgroup
    simp [Nat.le_zero.mp (h ▸ hle)]
  refine ⟨s, t, new ++ caps, hst, trivial, ?_, hnext⟩
  rw [counted, List.filter_append]
  exact congrArg (· ++ counted caps) hzero

theorem ReadsOnly.mono {L' : List Char → Prop} (h : ReadsOnly L r) (hL : ∀ s, L s → L' s) : ReadsOnly L' r := by
  intro here caps next out hout
  obtain ⟨s, t, caps', hst, hs, hcaps, hnext⟩ := h here caps next out hout
  exact ⟨s, t, caps', hst, hL s hs, hcaps, hnext⟩

-- ---------------------------------------------------------------------------
-- Parts
-- ---------------------------------------------------------------------------

theorem cuts_of_run {admits : Placeholder → List Char → Prop}
    (h : PartsInside context (fun p => ReadsOnly (admits p)) groups parts rs)
    (hout : run (ended tail rs) ⟨before, path⟩ caps finished = some out) :
    ∃ cs, Cuts admits tail parts path cs ∧ counted out = numbered (groups + 1) cs ++ counted caps := by
  induction h generalizing before path caps with
  | nil =>
    obtain ⟨hpath, rfl⟩ := run_end_eq_some_iff.mp hout
    exact ⟨[], ⟨hpath, rfl⟩, rfl⟩
  | @cons groups literal p parts r more hinside hr hmore ih =>
    rw [run_ended_cons, run_literal_eq_some_iff] at hout
    obtain ⟨l, t, hlt, hl, hout⟩ := hout
    obtain ⟨c, rest, caps', hcr, hc, hcaps, hnext⟩ := hr _ _ _ _ hout
    rw [Cursor.upTo_past hcr] at hnext
    obtain ⟨cs, hcs, hcounted⟩ := ih hnext
    rw [Cursor.past_rest] at hcr
    subst hcr
    refine ⟨c :: cs, ⟨l, c, rest, cs, hlt, hl, hc, hcs, rfl⟩, ?_⟩
    rw [hcounted, counted_cons, hcaps]
    simp [numbered]

/-- Letters without an alphabet do not stand alone: their class never closes. -/
theorem sound_of_standsAlone (h : standsAlone (p.expression context)) : p.Sound context := by
  obtain ⟨field, presence⟩ := p
  intro hfield hletters
  cases hfield
  have hclass : context.letters.classText = ['[', ']'] := by simp [Alphabet.classText, hletters, escape]
  cases presence with
  | required =>
    rw [Placeholder.expression, hclass] at h
    cases h
  | optional =>
    rw [Placeholder.expression, hclass] at h
    cases h

theorem addsParts_nameRule {rule : NameRule} (h : rule.OneClass) : AddsParts rule.expression := by
  cases rule with
  | chars body =>
    obtain ⟨members, hread⟩ := h
    exact addsParts_repeated hread (by decide)
  | fixed name => exact addsParts_escape name.toList

theorem addsParts_test (hfield : p.field ≠ .taskName) (hp : p.Sound context) : AddsParts (p.expression context) := by
  obtain ⟨field, presence⟩ := p
  cases field with
  | taskName => exact absurd rfl hfield
  | groupNumber => exact addsParts_repeated readClass_digitSet (by decide)
  | testNumber => cases presence <;> exact addsParts_repeated readClass_digitSet (by decide)
  | testLetter =>
    have hclass := readClass_alphabet (hp rfl)
    cases presence with
    | required => exact addsParts_class hclass
    | optional =>
      have htext : Placeholder.expression context ⟨.testLetter, .optional⟩ =
          '[' :: escape context.letters.letters ++ [']', '?'] := by simp [Placeholder.expression, Alphabet.classText]
      rw [htext]
      exact addsParts_repeated hclass (by decide)

theorem expression_taskName (h : p.field = .taskName) : p.expression context = context.name.expression := by
  obtain ⟨field, presence⟩ := p
  cases h
  rfl

theorem standsAlone_placeholder (hname : context.name.OneClass) (hp : p.Sound context) :
    standsAlone (p.expression context) := by
  by_cases hfield : p.field = .taskName
  · rw [expression_taskName hfield]
    exact (addsParts_nameRule hname).standsAlone
  · exact (addsParts_test hfield hp).standsAlone

theorem exists_inside (h : standsAlone (p.expression context)) :
    ∃ r, Inside (p.expression context) r ∧ ReadsOnly (TestAdmits context p) r := by
  by_cases hfield : p.field = .taskName
  · obtain ⟨r, hinside, hr⟩ := inside_of_standsAlone h
    exact ⟨r, hinside, (readsOnly_of_maxCapture hr).mono fun c _ hne => absurd hfield hne⟩
  · obtain ⟨rs, hf, hg⟩ := speaks_test hfield (sound_of_standsAlone h)
    exact ⟨sequence rs, hf.inside, (readsOnly_of_greedy hg).mono fun c hc _ => hc⟩

theorem exists_partsInside (groups : Nat) (h : ∀ part ∈ parts, standsAlone (part.2.expression context)) :
    ∃ rs, PartsInside context (fun p => ReadsOnly (TestAdmits context p)) groups parts rs := by
  induction parts generalizing groups with
  | nil => exact ⟨[], .nil⟩
  | cons part parts ih =>
    obtain ⟨r, hinside, hr⟩ := exists_inside (h part List.mem_cons_self)
    obtain ⟨more, hmore⟩ := ih (groups + 1) fun q hq => h q (List.mem_cons_of_mem _ hq)
    exact ⟨_, .cons hinside hr hmore⟩

-- ---------------------------------------------------------------------------
-- Whole paths
-- ---------------------------------------------------------------------------

theorem covers_of_search {t : Template} {regex : Regex}
    (h : ∀ part ∈ t.parts, standsAlone (part.2.expression context))
    (hregex : ofText? (t.expression context) = some regex) (hsearch : regex.search path = some caps) :
    ∃ cs, Covers context t.tail t.parts path cs ∧ ∀ i, caps.lookup (i + 1) = cs[i]? := by
  obtain ⟨rs, hrs⟩ := exists_partsInside 0 h
  obtain rfl := Option.some.inj (hrs.ofText?_expression.symm.trans hregex)
  rw [search_ended] at hsearch
  obtain ⟨cs, hcs, hcounted⟩ := cuts_of_run hrs hsearch
  refine ⟨cs, hcs, fun i => ?_⟩
  have hnumbered : counted caps = numbered 1 cs := hcounted.trans (List.append_nil _)
  rw [← lookup_counted, hnumbered, Nat.add_comm]
  exact lookup_numbered 1 i cs

/-- A path that matches is its literal texts and the texts that were read as its fields, which tell of the
record. -/
theorem match_covers_path {template path : String} {t : Template} {p : Pattern} {r : Record}
    (ht : Template.ofString template = .ok t) (halone : ∀ part ∈ t.parts, standsAlone (part.2.expression context))
    (hp : compile context template = .ok p) (hmatch : p.match? path = some r) :
    t.toText = template.toList ∧ t.Plain ∧ p.fields = t.fields ∧ ∃ cs caps, Covers context t.tail t.parts path.toList cs ∧
      p.regex.search path.toList = some caps ∧ (∀ i, caps.lookup (i + 1) = cs[i]?) ∧
      Tells context.letters (stated t.fields cs) path r := by
  obtain ⟨t', ht', hregex, hfields, hletters⟩ := compile_eq_ok hp
  cases ht.symm.trans ht'
  obtain ⟨htext, hplain⟩ := ofString_eq_ok ht
  simp only [match?, bind, Option.bind_eq_some_iff, Option.some.injEq] at hmatch
  obtain ⟨caps, hsearch, after, hread, group, hgroup, he⟩ := hmatch
  obtain ⟨cs, hcs, hlookup⟩ := covers_of_search halone hregex hsearch
  refine ⟨htext, hplain, hfields, cs, caps, hcs, hsearch, hlookup, ?_⟩
  have hcaps : ∀ i, caps.lookup (1 + i) = cs[i]? := by
    intro i
    rw [Nat.add_comm]
    exact hlookup i
  rw [hletters, hfields, readFields_eq_addAll hcaps (by simp [Template.fields, length_of_cuts hcs])] at hread
  refine (tells_iff fun field c hmem hfield => ?_).mp ⟨after, hread, group, hgroup, he⟩
  obtain ⟨hzip, hne⟩ := List.mem_filter.mp hmem
  obtain ⟨q, rfl, hq⟩ := admits_of_cuts hcs hzip
  have hnot : q.field ≠ .taskName := by
    rintro hname
    rw [hname] at hfield
    simp at hfield
  exact ⟨by simpa using hne, allDigits_of_admits (hq hnot) hfield⟩

def nameAndGroup : Template := ⟨[([], ⟨.taskName, .required⟩), ([], ⟨.groupNumber, .required⟩)], []⟩

theorem ofString_nameAndGroup : Template.ofString "$\x7bTaskName\x7d$\x7bS\x7d" = .ok nameAndGroup := by
  decide +kernel

/-- Names that begin with one class and end with another. -/
theorem match_covers_path_twoClasses :
    (∀ part ∈ nameAndGroup.parts, standsAlone (part.2.expression ⟨.chars "a](?:x|y)[b", .latin⟩)) ∧
    ∃ p, compile ⟨.chars "a](?:x|y)[b", .latin⟩ "$\x7bTaskName\x7d$\x7bS\x7d" = .ok p ∧
      p.match? "axb1" = some ⟨"axb1", "axb", 1, 1⟩ ∧
      ∃ cs, Covers ⟨.chars "a](?:x|y)[b", .latin⟩ [] nameAndGroup.parts "axb1".toList cs ∧
        Tells .latin (stated nameAndGroup.fields cs) "axb1" ⟨"axb1", "axb", 1, 1⟩ := by
  have halone : ∀ part ∈ nameAndGroup.parts, standsAlone (part.2.expression ⟨.chars "a](?:x|y)[b", .latin⟩) := by
    decide +kernel
  have hmatched : ∃ p, compile ⟨.chars "a](?:x|y)[b", .latin⟩ "$\x7bTaskName\x7d$\x7bS\x7d" = .ok p ∧
      p.match? "axb1" = some ⟨"axb1", "axb", 1, 1⟩ := ⟨_, rfl, by decide +kernel⟩
  obtain ⟨p, hp, hmatch⟩ := hmatched
  obtain ⟨-, -, -, cs, caps, hcs, -, -, htells⟩ := match_covers_path ofString_nameAndGroup halone hp hmatch
  exact ⟨halone, p, hp, hmatch, cs, hcs, htells⟩

/-- A name that closes its group and opens another one without a number: the second way through the
expression is not bound to the start of the path, and no name is read there. -/
theorem match_not_covered : ∃ p, compile ⟨.chars "a])|(?:[b", .latin⟩ "$\x7bTaskName\x7d$\x7bS\x7d" = .ok p ∧
    p.match? "zzzb1" = some ⟨"zzzb1", "", 1, 1⟩ ∧
    ¬∃ cs caps, Covers ⟨.chars "a])|(?:[b", .latin⟩ [] nameAndGroup.parts "zzzb1".toList cs ∧
      p.regex.search "zzzb1".toList = some caps ∧ ∀ i, caps.lookup (i + 1) = cs[i]? := by
  have hmatched : ∃ p, compile ⟨.chars "a])|(?:[b", .latin⟩ "$\x7bTaskName\x7d$\x7bS\x7d" = .ok p ∧
      p.match? "zzzb1" = some ⟨"zzzb1", "", 1, 1⟩ ∧ p.regex.search "zzzb1".toList = some [(2, ['1'])] :=
    ⟨_, rfl, by decide +kernel, by decide +kernel⟩
  obtain ⟨p, hp, hmatch, hsearch⟩ := hmatched
  refine ⟨p, hp, hmatch, ?_⟩
  rintro ⟨cs, caps, hcs, hcaps, hlookup⟩
  obtain rfl := Option.some.inj (hsearch.symm.trans hcaps)
  have hnone : cs[0]? = none := (hlookup 0).symm
  have hlength : cs.length = 2 := length_of_cuts hcs
  rw [List.getElem?_eq_none_iff] at hnone
  omega

end ContestTests.Pattern
