import ContestTests.Proofs.Template.Expression
import ContestTests.Proofs.Template.Spelling
import ContestTests.Template.Pattern

/-!
# What a pattern reads off a path

A compiled pattern reads its record off the greatest split of the path, and matches exactly if there is
a split and all that it says about a field agrees.
-/

namespace ContestTests.Pattern

open ContestTests.Text ContestTests.Regex ContestTests.Template

variable {context : Context} {letters : Alphabet} {fields : List Field} {cs : List (List Char)}
  {c : List Char} {reading after : Reading} {texts : List (Field × List Char)}

-- ---------------------------------------------------------------------------
-- Fields that are stated several times
-- ---------------------------------------------------------------------------

/-- The value of a field after it is stated a number of times, where what is unusable agrees with
nothing. -/
def Agrees [DecidableEq α] (before : Option α) : List (Option α) → Option α → Prop
  | [], after => after = before
  | value :: values, after => ∃ x, value = some x ∧ ∃ y, Record.coalesce before x = some y ∧
      Agrees (some y) values after

theorem agrees_some [DecidableEq α] {x : α} {values : List (Option α)} {after : Option α} :
    Agrees (some x) values after ↔ after = some x ∧ ∀ value ∈ values, value = some x := by
  induction values with
  | nil => simp [Agrees]
  | cons value values ih =>
    rw [Agrees, List.forall_mem_cons]
    constructor
    · rintro ⟨y, rfl, z, hz, h⟩
      obtain ⟨rfl, rfl⟩ : x = y ∧ y = z := by simpa [Record.coalesce] using hz
      obtain ⟨hafter, hvalues⟩ := ih.mp h
      exact ⟨hafter, rfl, hvalues⟩
    · rintro ⟨hafter, rfl, hvalues⟩
      exact ⟨x, rfl, x, by simp [Record.coalesce], ih.mpr ⟨hafter, hvalues⟩⟩

theorem agrees_none [DecidableEq α] {values : List (Option α)} {after : Option α} :
    Agrees none values after ↔
      (values = [] ∧ after = none) ∨ (values ≠ [] ∧ ∃ x, after = some x ∧ ∀ value ∈ values, value = some x) := by
  cases values with
  | nil => simp [Agrees]
  | cons value values =>
    simp only [Agrees, Record.coalesce, agrees_some, List.forall_mem_cons]
    constructor
    · rintro ⟨x, rfl, y, hxy, hafter, hvalues⟩
      cases hxy
      exact .inr ⟨by simp, x, hafter, rfl, hvalues⟩
    · rintro (⟨h, -⟩ | ⟨-, x, hafter, rfl, hvalues⟩)
      · cases h
      · exact ⟨x, rfl, x, rfl, hafter, hvalues⟩

theorem agrees_getD [DecidableEq α] {values : List (Option α)} {x default : α} :
    (∃ after, Agrees none values after ∧ after.getD default = x) ↔
      (∀ value ∈ values, value = some x) ∧ (values = [] → x = default) := by
  constructor
  · rintro ⟨after, h, rfl⟩
    rcases agrees_none.mp h with ⟨rfl, rfl⟩ | ⟨hne, y, rfl, hvalues⟩
    · simp
    · exact ⟨hvalues, fun h => absurd h hne⟩
  · rintro ⟨hvalues, hdefault⟩
    by_cases hne : values = []
    · exact ⟨none, agrees_none.mpr (.inl ⟨hne, rfl⟩), (hdefault hne).symm⟩
    · exact ⟨some x, agrees_none.mpr (.inr ⟨hne, x, rfl, hvalues⟩), rfl⟩

theorem agrees_stated [DecidableEq α] {values : List (Option α)} {x : α} :
    Agrees none values (some x) ↔ values ≠ [] ∧ ∀ value ∈ values, value = some x := by
  rw [agrees_none]
  constructor
  · rintro (⟨-, h⟩ | ⟨hne, y, hy, hvalues⟩)
    · cases h
    · cases hy
      exact ⟨hne, hvalues⟩
  · rintro ⟨hne, hvalues⟩
    exact .inr ⟨hne, x, rfl, hvalues⟩

def testOf (letters : Alphabet) : Field × List Char → Option Nat
  | (.testLetter, c) => letters.position? c
  | (_, c) => readBelow? bound32 c

def namesOf (texts : List (Field × List Char)) : List (Option (List Char)) :=
  (texts.filter fun t => t.1 = .taskName).map fun t => some t.2

def groupsOf (texts : List (Field × List Char)) : List (Option Nat) :=
  (texts.filter fun t => t.1 = .groupNumber).map fun t => readBelow? bound32 t.2

def testsOf (letters : Alphabet) (texts : List (Field × List Char)) : List (Option Nat) :=
  (texts.filter fun t => t.1 = .testNumber ∨ t.1 = .testLetter).map (testOf letters)

def Reading.addAll (letters : Alphabet) (reading : Reading) (texts : List (Field × List Char)) : Option Reading :=
  texts.foldlM (fun reading t => reading.add letters t.1 t.2) reading

theorem addAll_cons (t : Field × List Char) : reading.addAll letters (t :: texts) =
    (reading.add letters t.1 t.2).bind fun reading => reading.addAll letters texts := rfl

def Reading.take [DecidableEq α] (before value : Option α) (put : α → Reading) : Option Reading :=
  value.bind fun x => (Record.coalesce before x).bind fun y => some (put y)

theorem take_eq_some_iff [DecidableEq α] {before value : Option α} {put : α → Reading} {P : Reading → Prop} :
    (∃ r, Reading.take before value put = some r ∧ P r) ↔
      ∃ x, value = some x ∧ ∃ y, Record.coalesce before x = some y ∧ P (put y) := by
  constructor
  · rintro ⟨r, hr, hP⟩
    obtain ⟨x, hx, hr⟩ := Option.bind_eq_some_iff.mp hr
    obtain ⟨y, hy, he⟩ := Option.bind_eq_some_iff.mp hr
    cases he
    exact ⟨x, hx, y, hy, hP⟩
  · rintro ⟨x, rfl, y, hy, hP⟩
    exact ⟨put y, by simp [Reading.take, hy], hP⟩

theorem add_taskName : reading.add letters .taskName c =
    Reading.take reading.name (some c) fun name => { reading with name := some name } := by
  rw [Reading.add, Reading.take, Option.bind_some]
  cases Record.coalesce reading.name c <;> rfl

theorem add_groupNumber : reading.add letters .groupNumber c =
    Reading.take reading.group (readBelow? bound32 c) fun group => { reading with group := some group } := rfl

theorem add_testNumber : reading.add letters .testNumber c =
    Reading.take reading.test (readBelow? bound32 c) fun test => { reading with test := some test } := rfl

theorem add_testLetter : reading.add letters .testLetter c =
    Reading.take reading.test (letters.position? c) fun test => { reading with test := some test } := rfl

theorem addAll_eq_some_iff : reading.addAll letters texts = some after ↔
    Agrees reading.name (namesOf texts) after.name ∧ Agrees reading.group (groupsOf texts) after.group ∧
      Agrees reading.test (testsOf letters texts) after.test := by
  induction texts generalizing reading with
  | nil =>
    obtain ⟨name, group, test⟩ := reading
    obtain ⟨name', group', test'⟩ := after
    simp [Reading.addAll, namesOf, groupsOf, testsOf, Agrees, eq_comm]
  | cons t texts ih =>
    obtain ⟨field, c⟩ := t
    rw [addAll_cons, Option.bind_eq_some_iff]
    simp only [ih]
    cases field with
    | taskName =>
      have hnames : namesOf ((.taskName, c) :: texts) = some c :: namesOf texts := rfl
      rw [add_taskName, take_eq_some_iff, hnames]
      constructor
      · rintro ⟨x, hx, y, hy, hname, hrest⟩
        exact ⟨⟨x, hx, y, hy, hname⟩, hrest⟩
      · rintro ⟨⟨x, hx, y, hy, hname⟩, hrest⟩
        exact ⟨x, hx, y, hy, hname, hrest⟩
    | groupNumber =>
      have hgroups : groupsOf ((.groupNumber, c) :: texts) =
          readBelow? bound32 c :: groupsOf texts := rfl
      rw [add_groupNumber, take_eq_some_iff, hgroups]
      constructor
      · rintro ⟨x, hx, y, hy, hname, hgroup, htest⟩
        exact ⟨hname, ⟨x, hx, y, hy, hgroup⟩, htest⟩
      · rintro ⟨hname, ⟨x, hx, y, hy, hgroup⟩, htest⟩
        exact ⟨x, hx, y, hy, hname, hgroup, htest⟩
    | testNumber =>
      have htests : testsOf letters ((.testNumber, c) :: texts) =
          readBelow? bound32 c :: testsOf letters texts := rfl
      rw [add_testNumber, take_eq_some_iff, htests]
      constructor
      · rintro ⟨x, hx, y, hy, hname, hgroup, htest⟩
        exact ⟨hname, hgroup, x, hx, y, hy, htest⟩
      · rintro ⟨hname, hgroup, x, hx, y, hy, htest⟩
        exact ⟨x, hx, y, hy, hname, hgroup, htest⟩
    | testLetter =>
      have htests : testsOf letters ((.testLetter, c) :: texts) =
          letters.position? c :: testsOf letters texts := rfl
      rw [add_testLetter, take_eq_some_iff, htests]
      constructor
      · rintro ⟨x, hx, y, hy, hname, hgroup, htest⟩
        exact ⟨hname, hgroup, x, hx, y, hy, htest⟩
      · rintro ⟨hname, hgroup, x, hx, y, hy, htest⟩
        exact ⟨x, hx, y, hy, hname, hgroup, htest⟩

-- ---------------------------------------------------------------------------
-- Groups of a match
-- ---------------------------------------------------------------------------

theorem lookup_numbered_of_lt (h : n < first) (cs : List (List Char)) :
    (numbered first cs).lookup n = none := by
  induction cs generalizing first with
  | nil => rfl
  | cons c cs ih =>
    rw [numbered, List.lookup_append, ih (Nat.lt_succ_of_lt h)]
    simp [List.lookup_cons, beq_eq_false_iff_ne.mpr (Nat.ne_of_lt h)]

theorem lookup_numbered (first i : Nat) (cs : List (List Char)) :
    (numbered first cs).lookup (first + i) = cs[i]? := by
  induction cs generalizing first i with
  | nil => rfl
  | cons c cs ih =>
    rw [numbered, List.lookup_append]
    cases i with
    | zero =>
      rw [Nat.add_zero, lookup_numbered_of_lt (Nat.lt_succ_self first)]
      simp
    | succ i =>
      have hnext : first + (i + 1) = first + 1 + i := by omega
      have hne : first + 1 + i ≠ first := by omega
      rw [hnext, ih]
      simp [List.lookup_cons, beq_eq_false_iff_ne.mpr hne]

def pieces (p : Pattern) (path : List Char) : Option (List (List Char)) :=
  (p.regex.search path).map fun caps => (List.range p.fields.length).map fun i => (caps.lookup (i + 1)).getD []

theorem pieces_numbered (cs : List (List Char)) :
    (List.range cs.length).map (fun i => ((numbered 1 cs).lookup (i + 1)).getD []) = cs := by
  refine List.ext_getElem (by simp) fun i hi _ => ?_
  simp only [List.length_map, List.length_range] at hi
  simp [Nat.add_comm i 1, lookup_numbered, hi]

/-- The texts of the placeholders with their fields; an empty text says nothing. -/
def stated (fields : List Field) (cs : List (List Char)) : List (Field × List Char) :=
  (fields.zip cs).filter fun t => t.2 ≠ []

theorem readFields_eq_addAll {caps : Captures} (hcaps : ∀ i, caps.lookup (index + i) = cs[i]?)
    (hlen : cs.length = fields.length) :
    readFields letters caps index fields reading = reading.addAll letters (stated fields cs) := by
  induction fields generalizing index cs reading with
  | nil => rfl
  | cons field fields ih =>
    cases cs with
    | nil => cases hlen
    | cons c cs =>
      have hnext : ∀ i, caps.lookup (index + 1 + i) = cs[i]? := by
        intro i
        rw [Nat.add_assoc, Nat.add_comm 1 i, hcaps (i + 1)]
        rfl
      have hfirst : caps.lookup index = some c := hcaps 0
      have hrest : cs.length = fields.length := Nat.succ.inj hlen
      cases c with
      | nil =>
        have hstated : stated (field :: fields) ([] :: cs) = stated fields cs := rfl
        rw [readFields, hfirst, hstated]
        exact ih hnext hrest
      | cons d c =>
        have hstated : stated (field :: fields) ((d :: c) :: cs) =
            (field, d :: c) :: stated fields cs := rfl
        rw [readFields, hfirst, hstated, addAll_cons]
        dsimp only
        cases reading.add letters field (d :: c) with
        | none => rfl
        | some reading => exact ih hnext hrest

-- ---------------------------------------------------------------------------
-- Records
-- ---------------------------------------------------------------------------

theorem readBelow?_digits (hne : c ≠ []) (hc : AllDigits c) :
    readBelow? bound c = some n ↔ ofDigits c = n ∧ n < bound := by
  have hdigits : readBelow? bound c = (some (ofDigits c)).filter (· < bound) := by
    have hall : c.all Char.isDigit = true := List.all_eq_true.mpr hc
    have hempty : c.isEmpty = false := by simpa using hne
    unfold readBelow?
    split
    · rename_i rest
      have hplus := hc '+' List.mem_cons_self
      cases hplus
    · simp [readDigits?, hall, hempty]
  rw [hdigits, Option.filter_eq_some_iff]
  constructor
  · rintro ⟨he, hlt⟩
    cases he
    exact ⟨rfl, by simpa using hlt⟩
  · rintro ⟨rfl, hlt⟩
    exact ⟨rfl, by simpa using hlt⟩

/-- The texts of the placeholders tell of this record. -/
structure Tells (letters : Alphabet) (texts : List (Field × List Char)) (path : String) (r : Record) :
    Prop where
  path : r.path = path
  aGroup : ∃ c, (.groupNumber, c) ∈ texts
  group : ∀ c, (.groupNumber, c) ∈ texts → ofDigits c = r.group ∧ r.group < bound32
  testNumber : ∀ c, (.testNumber, c) ∈ texts → ofDigits c = r.test ∧ r.test < bound32
  testLetter : ∀ c, (.testLetter, c) ∈ texts → letters.position? c = some r.test
  noTest : (∀ c, (.testNumber, c) ∉ texts ∧ (.testLetter, c) ∉ texts) → r.test = 1
  taskName : ∀ c, (.taskName, c) ∈ texts → r.taskName = String.ofList c
  noName : (∀ c, (.taskName, c) ∉ texts) → r.taskName = ""

theorem mem_namesOf {value : Option (List Char)} :
    value ∈ namesOf texts ↔ ∃ c, (.taskName, c) ∈ texts ∧ some c = value := by
  simp [namesOf]

theorem mem_groupsOf {value : Option Nat} :
    value ∈ groupsOf texts ↔ ∃ c, (.groupNumber, c) ∈ texts ∧ readBelow? bound32 c = value := by
  simp [groupsOf]

theorem mem_testsOf {value : Option Nat} : value ∈ testsOf letters texts ↔
    (∃ c, (.testNumber, c) ∈ texts ∧ readBelow? bound32 c = value) ∨
      ∃ c, (.testLetter, c) ∈ texts ∧ letters.position? c = value := by
  simp only [testsOf, List.mem_map, List.mem_filter, decide_eq_true_eq]
  constructor
  · rintro ⟨⟨field, c⟩, ⟨hmem, hfield | hfield⟩, rfl⟩
    · cases hfield
      exact .inl ⟨c, hmem, rfl⟩
    · cases hfield
      exact .inr ⟨c, hmem, rfl⟩
  · rintro (⟨c, hmem, rfl⟩ | ⟨c, hmem, rfl⟩)
    · exact ⟨_, ⟨hmem, .inl rfl⟩, rfl⟩
    · exact ⟨_, ⟨hmem, .inr rfl⟩, rfl⟩

theorem namesOf_eq_nil_iff : namesOf texts = [] ↔ ∀ c, (.taskName, c) ∉ texts := by
  rw [List.eq_nil_iff_forall_not_mem]
  constructor
  · exact fun h c hc => h _ (mem_namesOf.mpr ⟨c, hc, rfl⟩)
  · intro h value hvalue
    obtain ⟨c, hc, -⟩ := mem_namesOf.mp hvalue
    exact h c hc

theorem testsOf_eq_nil_iff :
    testsOf letters texts = [] ↔ ∀ c, (.testNumber, c) ∉ texts ∧ (.testLetter, c) ∉ texts := by
  rw [List.eq_nil_iff_forall_not_mem]
  constructor
  · exact fun h c =>
      ⟨fun hc => h _ (mem_testsOf.mpr (.inl ⟨c, hc, rfl⟩)), fun hc => h _ (mem_testsOf.mpr (.inr ⟨c, hc, rfl⟩))⟩
  · intro h value hvalue
    rcases mem_testsOf.mp hvalue with ⟨c, hc, -⟩ | ⟨c, hc, -⟩
    · exact (h c).1 hc
    · exact (h c).2 hc

theorem names_agree_iff {name : String} :
    (∃ after, Agrees none (namesOf texts) after ∧ after.getD [] = name.toList) ↔
      (∀ c, (.taskName, c) ∈ texts → name = String.ofList c) ∧ ((∀ c, (.taskName, c) ∉ texts) → name = "") := by
  rw [agrees_getD, namesOf_eq_nil_iff, String.toList_eq_nil_iff]
  refine and_congr_left' ⟨fun h c hc => ?_, fun h value hvalue => ?_⟩
  · rw [Option.some.inj (h _ (mem_namesOf.mpr ⟨c, hc, rfl⟩)), String.ofList_toList]
  · obtain ⟨c, hc, rfl⟩ := mem_namesOf.mp hvalue
    rw [h c hc, String.toList_ofList]

def Numerals (texts : List (Field × List Char)) : Prop :=
  ∀ field c, (field, c) ∈ texts → field = .groupNumber ∨ field = .testNumber → c ≠ [] ∧ AllDigits c

theorem Numerals.readBelow?_iff (h : Numerals texts) (hmem : (field, c) ∈ texts)
    (hfield : field = .groupNumber ∨ field = .testNumber) :
    readBelow? bound32 c = some n ↔ ofDigits c = n ∧ n < bound32 :=
  readBelow?_digits (h field c hmem hfield).1 (h field c hmem hfield).2

theorem groups_agree_iff (h : Numerals texts) : Agrees none (groupsOf texts) (some n) ↔
    (∃ c, (.groupNumber, c) ∈ texts) ∧ ∀ c, (.groupNumber, c) ∈ texts → ofDigits c = n ∧ n < bound32 := by
  rw [agrees_stated]
  refine and_congr ⟨fun hsome => ?_, fun ⟨c, hc⟩ => List.ne_nil_of_mem (mem_groupsOf.mpr ⟨c, hc, rfl⟩)⟩
    ⟨fun hgroups c hc => ?_, fun hgroups value hvalue => ?_⟩
  · obtain ⟨value, hvalue⟩ := List.exists_mem_of_ne_nil _ hsome
    obtain ⟨c, hc, -⟩ := mem_groupsOf.mp hvalue
    exact ⟨c, hc⟩
  · exact (h.readBelow?_iff hc (.inl rfl)).mp (hgroups _ (mem_groupsOf.mpr ⟨c, hc, rfl⟩))
  · obtain ⟨c, hc, rfl⟩ := mem_groupsOf.mp hvalue
    exact (h.readBelow?_iff hc (.inl rfl)).mpr (hgroups c hc)

theorem tests_agree_iff (h : Numerals texts) :
    (∃ after, Agrees none (testsOf letters texts) after ∧ after.getD 1 = n) ↔
      ((∀ c, (.testNumber, c) ∈ texts → ofDigits c = n ∧ n < bound32) ∧
        ∀ c, (.testLetter, c) ∈ texts → letters.position? c = some n) ∧
      ((∀ c, (.testNumber, c) ∉ texts ∧ (.testLetter, c) ∉ texts) → n = 1) := by
  rw [agrees_getD, testsOf_eq_nil_iff]
  refine and_congr_left' ⟨fun htests => ⟨fun c hc => ?_, fun c hc => ?_⟩, fun htests value hvalue => ?_⟩
  · exact (h.readBelow?_iff hc (.inr rfl)).mp (htests _ (mem_testsOf.mpr (.inl ⟨c, hc, rfl⟩)))
  · exact htests _ (mem_testsOf.mpr (.inr ⟨c, hc, rfl⟩))
  · rcases mem_testsOf.mp hvalue with ⟨c, hc, rfl⟩ | ⟨c, hc, rfl⟩
    · exact (h.readBelow?_iff hc (.inr rfl)).mpr (htests.1 c hc)
    · exact htests.2 c hc

theorem tells_iff {path : String} {r : Record} (hdigits : Numerals texts) :
    (∃ after, Reading.addAll letters ⟨none, none, none⟩ texts = some after ∧ ∃ group, after.group = some group ∧
      Record.mk path (String.ofList (after.name.getD [])) group (after.test.getD 1) = r) ↔
      Tells letters texts path r := by
  simp only [addAll_eq_some_iff]
  constructor
  · rintro ⟨⟨name, group, test⟩, ⟨hname, hgroup, htest⟩, g, rfl, rfl⟩
    obtain ⟨hnames, hnoName⟩ := names_agree_iff.mp ⟨name, hname, String.toList_ofList.symm⟩
    obtain ⟨haGroup, hgroups⟩ := (groups_agree_iff hdigits).mp hgroup
    obtain ⟨⟨hnumbers, hletters⟩, hnoTest⟩ := (tests_agree_iff hdigits).mp ⟨test, htest, rfl⟩
    exact ⟨rfl, haGroup, hgroups, hnumbers, hletters, hnoTest, hnames, hnoName⟩
  · intro h
    obtain ⟨name, hname, hnameText⟩ := names_agree_iff.mpr ⟨h.taskName, h.noName⟩
    have hgroup := (groups_agree_iff hdigits).mpr ⟨h.aGroup, h.group⟩
    obtain ⟨test, htest, htestValue⟩ := (tests_agree_iff hdigits).mpr ⟨⟨h.testNumber, h.testLetter⟩, h.noTest⟩
    refine ⟨⟨name, some r.group, test⟩, ⟨hname, hgroup, htest⟩, r.group, rfl, ?_⟩
    rw [hnameText, htestValue, String.ofList_toList, ← h.path]

-- ---------------------------------------------------------------------------
-- Matching
-- ---------------------------------------------------------------------------

theorem compile_eq_ok {template : String} {p : Pattern} (h : compile context template = .ok p) :
    ∃ t, Template.ofString template = .ok t ∧ ofText? (t.expression context) = some p.regex ∧
      p.fields = t.fields ∧ p.letters = context.letters := by
  rw [compile] at h
  split at h
  · cases h
  rename_i t hofString
  dsimp only at h
  split at h
  · cases h
  rename_i regex hregex
  split at h
  · cases h
    exact ⟨t, hofString, hregex, rfl, rfl⟩
  · cases h

theorem fields_of_compile {context' : Context} {template : String} {p p' : Pattern}
    (h : compile context template = .ok p) (h' : compile context' template = .ok p') : p'.fields = p.fields := by
  obtain ⟨t, ht, -, hfields, -⟩ := compile_eq_ok h
  obtain ⟨t', ht', -, hfields', -⟩ := compile_eq_ok h'
  obtain rfl : t = t' := Except.ok.inj (ht.symm.trans ht')
  exact hfields'.trans hfields.symm

/-- Of the rule for names a template compiles only what it has of it. -/
theorem compile_congr {context' : Context} {template : String} {t : Template}
    (ht : Template.ofString template = .ok t) (hexpression : t.expression context = t.expression context')
    (hletters : context.letters = context'.letters) : compile context template = compile context' template := by
  rw [compile, compile, ht]
  dsimp only
  rw [hexpression, hletters]

theorem search_iff {template : String} {t : Template} {p : Pattern} (hname : context.name.OneClass)
    (ht : Template.ofString template = .ok t) (h : compile context template = .ok p) :
    (∀ path, (p.regex.search path).isSome ↔ ∃ cs, Splits context t.tail t.parts path cs) ∧
      ∀ path caps, p.regex.search path = some caps ↔
        ∃ cs, Greatest context t.tail t.parts path cs ∧ caps = numbered 1 cs := by
  obtain ⟨t', ht', hregex, -⟩ := compile_eq_ok h
  cases ht.symm.trans ht'
  obtain ⟨regex, hregex', hsearch⟩ := exists_ofText?_expression hname (sound_of_ofText? hname hregex)
  obtain rfl : regex = p.regex := Option.some.inj (hregex'.symm.trans hregex)
  exact hsearch

theorem pieces_eq_some_iff {template : String} {path : List Char} {t : Template} {p : Pattern}
    (hname : context.name.OneClass) (ht : Template.ofString template = .ok t) (h : compile context template = .ok p) :
    p.pieces path = some cs ↔ Greatest context t.tail t.parts path cs := by
  obtain ⟨t', ht', -, hfields, -⟩ := compile_eq_ok h
  cases ht.symm.trans ht'
  obtain ⟨-, hsearch⟩ := search_iff hname ht h
  have hpieces (ds : List (List Char)) (hds : Greatest context t.tail t.parts path ds) :
      (List.range p.fields.length).map (fun i => ((numbered 1 ds).lookup (i + 1)).getD []) = ds := by
    have hlength : p.fields.length = ds.length := by simp [hfields, Template.fields, length_of_splits hds.1]
    rw [hlength, pieces_numbered]
  simp only [pieces, Option.map_eq_some_iff, hsearch]
  constructor
  · rintro ⟨_, ⟨ds, hds, rfl⟩, rfl⟩
    rwa [hpieces ds hds]
  · intro hcs
    exact ⟨_, ⟨cs, hcs, rfl⟩, hpieces cs hcs⟩

/-- A match is the record that the greatest split of the path tells of. -/
theorem match?_eq_some_iff {template path : String} {t : Template} {p : Pattern} {r : Record}
    (hname : context.name.OneClass) (ht : Template.ofString template = .ok t) (h : compile context template = .ok p) :
    p.match? path = some r ↔ ∃ cs, Greatest context t.tail t.parts path.toList cs ∧
      Tells context.letters (stated t.fields cs) path r := by
  obtain ⟨t', ht', -, hfields, hletters⟩ := compile_eq_ok h
  cases ht.symm.trans ht'
  obtain ⟨-, hsearch⟩ := search_iff hname ht h
  have hread (cs : List (List Char)) (hcs : Greatest context t.tail t.parts path.toList cs) :
      readFields p.letters (numbered 1 cs) 1 p.fields ⟨none, none, none⟩ =
        Reading.addAll context.letters ⟨none, none, none⟩ (stated t.fields cs) := by
    rw [hletters, hfields]
    exact readFields_eq_addAll (lookup_numbered 1 · cs) (by simp [Template.fields, length_of_splits hcs.1])
  have hdigits (cs : List (List Char)) (hcs : Greatest context t.tail t.parts path.toList cs)
      (field : Field) (c : List Char) (hmem : (field, c) ∈ stated t.fields cs)
      (hfield : field = .groupNumber ∨ field = .testNumber) : c ≠ [] ∧ AllDigits c := by
    obtain ⟨hzip, hne⟩ := List.mem_filter.mp hmem
    obtain ⟨q, rfl, hq⟩ := admits_of_splits hcs.1 hzip
    exact ⟨by simpa using hne, allDigits_of_admits hq hfield⟩
  simp only [match?, bind, Option.bind_eq_some_iff, hsearch, Option.some.injEq]
  constructor
  · rintro ⟨_, ⟨cs, hcs, rfl⟩, after, hafter, group, hgroup, he⟩
    rw [hread cs hcs] at hafter
    exact ⟨cs, hcs, (tells_iff (hdigits cs hcs)).mp ⟨after, hafter, group, hgroup, he⟩⟩
  · rintro ⟨cs, hcs, htells⟩
    obtain ⟨after, hafter, group, hgroup, he⟩ := (tells_iff (hdigits cs hcs)).mpr htells
    exact ⟨_, ⟨cs, hcs, rfl⟩, after, (hread cs hcs).trans hafter, group, hgroup, he⟩

/-- A path matches exactly if it has a split and the greatest one tells of a record, which is the
record of the match. -/
theorem matches_iff_greatest_split_tells {template : String} {p : Pattern} (hname : context.name.OneClass)
    (h : compile context template = .ok p) :
    ∃ t, Template.ofString template = .ok t ∧ t.toText = template.toList ∧ t.Plain ∧
      (∀ path cs, Splits context t.tail t.parts path cs → ∃ cs, Greatest context t.tail t.parts path cs ∧
        ∀ cs', Greatest context t.tail t.parts path cs' → cs' = cs) ∧
      ∀ path r, p.match? path = some r ↔ ∃ cs, Greatest context t.tail t.parts path.toList cs ∧
        Tells context.letters (stated t.fields cs) path r := by
  obtain ⟨t, hofString, hregex, -, -⟩ := compile_eq_ok h
  obtain ⟨htext, hplain⟩ := ofString_eq_ok hofString
  obtain ⟨rs, hrs⟩ := exists_partsRead hname 0 (sound_of_ofText? hname hregex)
  refine ⟨t, hofString, htext, hplain, fun path cs hcs => ?_, fun path r => match?_eq_some_iff hname hofString h⟩
  obtain ⟨cs', hcs'⟩ := hrs.exists_greatest hcs
  exact ⟨cs', hcs', fun cs'' => greatest_unique hcs'⟩

/-- A name in either case, a group and a letter. -/
theorem matches_iff_greatest_split_tells_letters :
    (NameRule.chars "a-z").OneClass ∧
      ∃ p, compile ⟨.chars "a-z", ⟨['a', 'b']⟩⟩ "$\x7bTaskName\x7d$\x7bS\x7d$[SL].in" = .ok p ∧
        ∃ t, Template.ofString "$\x7bTaskName\x7d$\x7bS\x7d$[SL].in" = .ok t ∧
          ∀ path r, p.match? path = some r ↔
            ∃ cs, Greatest ⟨.chars "a-z", ⟨['a', 'b']⟩⟩ t.tail t.parts path.toList cs ∧
              Tells ⟨['a', 'b']⟩ (stated t.fields cs) path r := by
  have hname : (Context.mk (.chars "a-z") ⟨['a', 'b']⟩).name.OneClass := ⟨_, rfl⟩
  have hcompile : ∃ p, compile ⟨.chars "a-z", ⟨['a', 'b']⟩⟩ "$\x7bTaskName\x7d$\x7bS\x7d$[SL].in" = .ok p :=
    ⟨_, rfl⟩
  obtain ⟨p, hp⟩ := hcompile
  obtain ⟨t, ht, -, -, -, hmatch⟩ := matches_iff_greatest_split_tells hname hp
  exact ⟨hname, p, hp, t, ht, hmatch⟩

end ContestTests.Pattern
