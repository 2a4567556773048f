import ContestTests.Proofs.Template.Matching
import ContestTests.Proofs.Text.Lowering

/-!
# Paths that differ in letter case

Matching ignores case: a class that ignores case takes all characters that fold together or none of them, however it
is made of others. So paths that differ in the case of ASCII letters only are cut in the same places. The numbers read
off them are the same digits, and letters of tests have their places in lower case.
-/

namespace ContestTests

open Text

-- ---------------------------------------------------------------------------
-- Classes
-- ---------------------------------------------------------------------------

theorem Regex.CharSet.holdsAt_fold {c d : Char} (h : fold c = fold d) (p : Char → Bool) :
    holdsAt true p c = holdsAt true p d := by
  have hmem (x : Char) : x ∈ orbit c ↔ x ∈ orbit d := by rw [mem_orbit_iff, mem_orbit_iff, h]
  rw [Bool.eq_iff_iff]
  simp only [holdsAt, if_true, List.any_eq_true, hmem]

/-- Whatever a class that ignores case is made of, it does not tell apart characters that fold together. -/
theorem Regex.CharSet.mem_fold {c d : Char} (h : fold c = fold d) (set : CharSet) :
    set.mem true c = set.mem true d := by
  induction set with
  | empty => rfl
  | range first last => exact holdsAt_fold h _
  | property holds => exact holdsAt_fold h holds
  | union a b ha hb => simp only [mem, ha, hb]
  | inter a b ha hb => simp only [mem, ha, hb]
  | diff a b ha hb => simp only [mem, ha, hb]
  | symDiff a b ha hb => simp only [mem, ha, hb]
  | compl a ha => simp only [mem, ha]

namespace Template

open Regex

variable {context : Context} {parts : List (List Char × Placeholder)} {tail path path' s t : List Char}
  {p : Placeholder} {cs cs' : List (List Char)}

-- ---------------------------------------------------------------------------
-- Cuts
-- ---------------------------------------------------------------------------

theorem eq_of_sameFold_digits (hs : AllDigits s) (h : SameFold s t) : t = s := by
  induction s generalizing t with
  | nil => exact sameFold_nil.mp h.symm
  | cons c s ih =>
    obtain ⟨hc, hs⟩ := List.forall_mem_cons.mp hs
    obtain ⟨d, t, rfl, hd, ht⟩ := sameFold_cons.mp h.symm
    have hdigit : d = c := eq_of_fold_eq (isDigit_iff.mp hc).2 (hd.trans (fold_digit hc))
    rw [hdigit, ih hs ht.symm]

theorem NameRule.Admits.sameFold {rule : NameRule} (h : rule.Admits s) (hst : SameFold s t) : rule.Admits t := by
  cases rule with
  | chars body =>
    obtain ⟨members, hread, hne, hs⟩ := h
    refine ⟨members, hread, ?_, fun c hc => ?_⟩
    · rintro rfl
      exact hne (sameFold_nil.mp hst)
    · obtain ⟨d, hd, hfold⟩ := exists_fold_of_mem hst hc
      rw [← CharSet.mem_fold hfold]
      exact hs d hd
  | fixed name => exact hst.symm.trans h

theorem Alphabet.IsLetter.sameFold {a : Alphabet} (h : a.IsLetter s) (hst : SameFold s t) : a.IsLetter t := by
  obtain ⟨c, rfl, letter, hletter, hc⟩ := h
  obtain ⟨d, _, rfl, hd, ht⟩ := sameFold_cons.mp hst.symm
  obtain rfl := sameFold_nil.mp ht
  exact ⟨d, rfl, letter, hletter, hd.trans hc⟩

theorem Placeholder.Admits.sameFold (h : p.Admits context s) (hst : SameFold s t) : p.Admits context t := by
  obtain ⟨field, presence⟩ := p
  cases field with
  | taskName => exact NameRule.Admits.sameFold h hst
  | groupNumber => rwa [eq_of_sameFold_digits h.2 hst]
  | testNumber =>
    cases presence with
    | required => rwa [eq_of_sameFold_digits h.2 hst]
    | optional => rwa [eq_of_sameFold_digits h hst]
  | testLetter =>
    cases presence with
    | required => exact Alphabet.IsLetter.sameFold h hst
    | optional =>
      rcases h with h | rfl
      · exact .inl (h.sameFold hst)
      · exact .inr (sameFold_nil.mp hst.symm)

theorem Splits.sameCase (h : Splits context tail parts path cs) (hsame : sameIgnoringAsciiCase path path') :
    ∃ cs', Splits context tail parts path' cs' ∧ List.Forall₂ (fun c c' => sameIgnoringAsciiCase c c') cs cs' := by
  induction parts generalizing path path' cs with
  | nil =>
    obtain ⟨hpath, rfl⟩ := h
    have hfold := (sameFold_of_sameIgnoringAsciiCase hsame).symm
    exact ⟨[], ⟨hfold.trans hpath, rfl⟩, .nil⟩
  | cons part parts ih =>
    obtain ⟨l, c, rest, cs, rfl, hl, hc, hrest, rfl⟩ := h
    obtain ⟨l', _, rfl, hl', hmore⟩ := exists_append_sameCase hsame
    obtain ⟨c', rest', rfl, hc', hrest'⟩ := exists_append_sameCase hmore
    obtain ⟨cs', hsplits, hsames⟩ := ih hrest hrest'
    have hfold := (sameFold_of_sameIgnoringAsciiCase hl').symm
    exact ⟨c' :: cs', ⟨l', c', rest', cs', rfl, hfold.trans hl,
      hc.sameFold (sameFold_of_sameIgnoringAsciiCase hc'), hsplits, rfl⟩, .cons hc' hsames⟩

theorem map_length_of_sameCase (h : List.Forall₂ (fun c c' => sameIgnoringAsciiCase c c') cs cs') :
    cs.map List.length = cs'.map List.length := by
  rw [← List.forall₂_eq_eq_eq, List.forall₂_map_left_iff, List.forall₂_map_right_iff]
  exact h.imp fun _ _ hsame => length_of_sameIgnoringAsciiCase hsame

theorem Greatest.sameCase (h : Greatest context tail parts path cs) (hsame : sameIgnoringAsciiCase path path') :
    ∃ cs', Greatest context tail parts path' cs' ∧ List.Forall₂ (fun c c' => sameIgnoringAsciiCase c c') cs cs' := by
  obtain ⟨hsplits, hmax⟩ := h
  obtain ⟨cs', hsplits', hsames⟩ := hsplits.sameCase hsame
  refine ⟨cs', ⟨hsplits', fun ds' hds' => ?_⟩, hsames⟩
  obtain ⟨ds, hds, hsames'⟩ := hds'.sameCase (sameIgnoringAsciiCase_symm hsame)
  rw [map_length_of_sameCase hsames', ← map_length_of_sameCase hsames]
  exact hmax ds hds

-- ---------------------------------------------------------------------------
-- Places in a path
-- ---------------------------------------------------------------------------

/-- Where the texts of the placeholders start, behind so many characters. -/
def starts : List (List Char × Placeholder) → Nat → List (List Char) → List Nat
  | (literal, _) :: parts, before, c :: cs =>
    (before + literal.length) :: starts parts (before + literal.length + c.length) cs
  | _, _, _ => []

theorem length_starts (before : Nat) (h : cs.length = parts.length) :
    (starts parts before cs).length = parts.length := by
  induction parts generalizing before cs with
  | nil => cases cs <;> rfl
  | cons part parts ih =>
    cases cs with
    | nil => cases h
    | cons c cs => rw [starts, List.length_cons, List.length_cons, ih _ (Nat.succ.inj h)]

theorem starts_congr (parts : List (List Char × Placeholder)) (before : Nat)
    (h : cs.map List.length = cs'.map List.length) : starts parts before cs = starts parts before cs' := by
  induction parts generalizing before cs cs' with
  | nil => cases cs <;> cases cs' <;> rfl
  | cons part parts ih =>
    cases cs with
    | nil =>
      cases cs' with
      | nil => rfl
      | cons c' cs' => cases h
    | cons c cs =>
      cases cs' with
      | nil => cases h
      | cons c' cs' =>
        rw [List.map_cons, List.map_cons, List.cons.injEq] at h
        rw [starts, starts, h.1, ih _ h.2]

theorem prefix_of_starts {i start : Nat} {c : List Char} (before : List Char) (h : Splits context tail parts path cs)
    (hstart : (starts parts before.length cs)[i]? = some start) (hc : cs[i]? = some c) :
    c <+: (before ++ path).drop start := by
  induction parts generalizing before path cs i with
  | nil => simp [h.2] at hc
  | cons part parts ih =>
    obtain ⟨l, d, rest, cs, rfl, hl, -, hrest, rfl⟩ := h
    have hlength := hl.length_eq
    rw [starts] at hstart
    cases i with
    | zero =>
      cases hstart
      cases hc
      rw [← hlength, ← List.length_append, ← List.append_assoc, List.drop_left]
      exact List.prefix_append _ _
    | succ i =>
      have hbefore : before.length + part.1.length + d.length = (before ++ l ++ d).length := by
        simp [hlength, Nat.add_assoc]
      rw [List.getElem?_cons_succ, hbefore] at hstart
      have hstands := ih _ hrest hstart hc
      simpa only [List.append_assoc] using hstands

end Template

-- ---------------------------------------------------------------------------
-- Records
-- ---------------------------------------------------------------------------

namespace Pattern

open Template

variable {context : Context} {template path path' : String} {t : Template} {p : Pattern} {fields : List Field}
  {cs cs' : List (List Char)} {r r' : Record} {i start : Nat}

/-- The task name of a record is what a placeholder reads off the path, and it starts there. -/
structure NameStands (p : Pattern) (t : Template) (r : Record) (i start : Nat) : Prop where
  reads : ∃ cs, p.pieces r.path.toList = some cs ∧ cs[i]? = some r.taskName.toList ∧
    (starts t.parts 0 cs)[i]? = some start
  stands : r.taskName.toList <+: r.path.toList.drop start

/-- What a match tells of a test is the same, and it reads the task name in the same place. -/
structure SameReading (p : Pattern) (t : Template) (r r' : Record) : Prop where
  group : r.group = r'.group
  test : r.test = r'.test
  taskName : sameIgnoringAsciiCase r.taskName.toList r'.taskName.toList
  place : ∀ i, t.fields[i]? = some .taskName → ∃ start, NameStands p t r i start ∧ NameStands p t r' i start

theorem exists_mem_zip (h : List.Forall₂ R cs cs') (hmem : (field, c) ∈ fields.zip cs) :
    ∃ c', (field, c') ∈ fields.zip cs' ∧ R c c' := by
  induction h generalizing fields with
  | nil => simp at hmem
  | @cons d d' cs cs' hd _ ih =>
    cases fields with
    | nil => cases hmem
    | cons f fields =>
      rcases List.mem_cons.mp hmem with he | hmem
      · cases he
        exact ⟨d', List.mem_cons_self, hd⟩
      · obtain ⟨c', hc', hr⟩ := ih hmem
        exact ⟨c', List.mem_cons_of_mem _ hc', hr⟩

theorem exists_mem_stated (h : List.Forall₂ (fun c c' => sameIgnoringAsciiCase c c') cs cs')
    (hmem : (field, c) ∈ stated fields cs) : ∃ c', (field, c') ∈ stated fields cs' ∧ sameIgnoringAsciiCase c c' := by
  obtain ⟨hzip, hne⟩ := List.mem_filter.mp hmem
  obtain ⟨c', hzip', hsame⟩ := exists_mem_zip h hzip
  refine ⟨c', List.mem_filter.mpr ⟨hzip', ?_⟩, hsame⟩
  have hlength := length_of_sameIgnoringAsciiCase hsame
  simp only [ne_eq, decide_eq_true_eq, ← List.length_eq_zero_iff] at hne ⊢
  rwa [← hlength]

theorem eq_of_mem_zip {field : Field} {c d : List Char} (honce : fields.count field ≤ 1)
    (hc : (field, c) ∈ fields.zip cs) (hd : (field, d) ∈ fields.zip cs) : c = d := by
  induction fields generalizing cs with
  | nil => cases hc
  | cons f fields ih =>
    cases cs with
    | nil => cases hc
    | cons e cs =>
      have hnone (x : List Char) (hf : f = field) : (field, x) ∉ fields.zip cs := by
        intro hmem
        rw [hf, List.count_cons_self] at honce
        have hpos := List.count_pos_iff.mpr (List.of_mem_zip hmem).1
        omega
      rcases List.mem_cons.mp hc with hfirst | hlater
      · cases hfirst
        rcases List.mem_cons.mp hd with hfirst' | hlater'
        · cases hfirst'
          rfl
        · exact absurd hlater' (hnone d rfl)
      · rcases List.mem_cons.mp hd with hfirst' | hlater'
        · cases hfirst'
          exact absurd hlater (hnone c rfl)
        · exact ih (Nat.le_trans List.count_le_count_cons honce) hlater hlater'

theorem taskName_of_tells {letters : Alphabet} (htells : Tells letters (stated fields cs) path r)
    (honce : fields.count .taskName ≤ 1) (hc : (.taskName, c) ∈ fields.zip cs) : r.taskName.toList = c := by
  by_cases hne : c = []
  · have hnone : ∀ d, (.taskName, d) ∉ stated fields cs := by
      intro d hd
      obtain ⟨hzip, hd⟩ := List.mem_filter.mp hd
      simp [← eq_of_mem_zip honce hc hzip, hne] at hd
    rw [htells.noName hnone, hne]
    rfl
  · rw [htells.taskName c (List.mem_filter.mpr ⟨hc, by simpa using hne⟩), String.toList_ofList]

theorem exists_name_sameCase {letters : Alphabet} (h : Tells letters (stated fields cs) path r)
    (honce : fields.count .taskName ≤ 1) (hsames : List.Forall₂ (fun c c' => sameIgnoringAsciiCase c c') cs cs') :
    ∃ name', (∀ c', (.taskName, c') ∈ stated fields cs' → name' = String.ofList c') ∧
      ((∀ c', (.taskName, c') ∉ stated fields cs') → name' = "") ∧
      sameIgnoringAsciiCase r.taskName.toList name'.toList := by
  by_cases hstated : ∃ c', (.taskName, c') ∈ stated fields cs'
  · obtain ⟨c', hc'⟩ := hstated
    obtain ⟨c, hc, hsame⟩ := exists_mem_stated (hsames.flip.imp fun _ _ => sameIgnoringAsciiCase_symm) hc'
    refine ⟨String.ofList c', fun d hd => ?_, fun hnone => absurd hc' (hnone c'), ?_⟩
    · rw [eq_of_mem_zip honce (List.mem_filter.mp hc').1 (List.mem_filter.mp hd).1]
    · rw [h.taskName c hc, String.toList_ofList, String.toList_ofList]
      exact sameIgnoringAsciiCase_symm hsame
  · have hnone : ∀ c, (.taskName, c) ∉ stated fields cs := by
      intro c hc
      obtain ⟨c', hc', -⟩ := exists_mem_stated hsames hc
      exact hstated ⟨c', hc'⟩
    refine ⟨"", fun c' hc' => absurd ⟨c', hc'⟩ hstated, fun _ => rfl, ?_⟩
    rw [h.noName hnone]
    rfl

/-- Texts in another case tell of the same test, and of a name in another case. -/
theorem Tells.sameCase {letters : Alphabet} (h : Tells letters (stated fields cs) path r) (path' : String)
    (honce : fields.count .taskName ≤ 1)
    (hdigits : ∀ field c, (field, c) ∈ stated fields cs → field = .groupNumber ∨ field = .testNumber → AllDigits c)
    (hsames : List.Forall₂ (fun c c' => sameIgnoringAsciiCase c c') cs cs') :
    ∃ r', Tells letters (stated fields cs') path' r' ∧ r.group = r'.group ∧ r.test = r'.test ∧
      sameIgnoringAsciiCase r.taskName.toList r'.taskName.toList := by
  have hback := hsames.flip.imp fun _ _ => sameIgnoringAsciiCase_symm
  -- Digits have no case, so that numbers are the same texts.
  have hnumber (field : Field) (c' : List Char) (hc' : (field, c') ∈ stated fields cs')
      (hfield : field = .groupNumber ∨ field = .testNumber) : (field, c') ∈ stated fields cs := by
    obtain ⟨c, hc, hsame⟩ := exists_mem_stated hback hc'
    have hfold := sameFold_of_sameIgnoringAsciiCase (sameIgnoringAsciiCase_symm hsame)
    rwa [eq_of_sameFold_digits (hdigits field c hc hfield) hfold]
  obtain ⟨name', hnames, hnoName, hsame⟩ := exists_name_sameCase h honce hsames
  refine ⟨⟨path', name', r.group, r.test⟩, ⟨rfl, ?_, fun c' hc' => ?_, fun c' hc' => ?_, fun c' hc' => ?_,
    fun hnone => ?_, hnames, hnoName⟩, rfl, rfl, hsame⟩
  · obtain ⟨c, hc⟩ := h.aGroup
    obtain ⟨c', hc', -⟩ := exists_mem_stated hsames hc
    exact ⟨c', hc'⟩
  · exact h.group c' (hnumber _ c' hc' (.inl rfl))
  · exact h.testNumber c' (hnumber _ c' hc' (.inr rfl))
  · obtain ⟨c, hc, hsame⟩ := exists_mem_stated hback hc'
    have hplace := h.testLetter c hc
    rwa [Alphabet.position?, ← flatMap_lowerChar_sameCase hsame] at hplace
  · refine h.noTest fun c => ⟨fun hc => ?_, fun hc => ?_⟩
    · obtain ⟨c', hc', -⟩ := exists_mem_stated hsames hc
      exact (hnone c').1 hc'
    · obtain ⟨c', hc', -⟩ := exists_mem_stated hsames hc
      exact (hnone c').2 hc'

theorem nameStands_of_tells (hpieces : p.pieces path.toList = some cs)
    (hsplits : Splits context t.tail t.parts path.toList cs) (htells : Tells context.letters (stated t.fields cs) path r)
    (honce : t.fields.count .taskName ≤ 1) (hi : t.fields[i]? = some .taskName)
    (hstart : (starts t.parts 0 cs)[i]? = some start) : NameStands p t r i start := by
  have hlength : cs.length = t.fields.length := by rw [length_of_splits hsplits, Template.fields, List.length_map]
  obtain ⟨hlt, -⟩ := List.getElem?_eq_some_iff.mp hi
  have hc : cs[i]? = some cs[i] := List.getElem?_eq_getElem (hlength ▸ hlt)
  have hname := taskName_of_tells htells honce (List.mem_of_getElem? (List.getElem?_zip_eq_some.mpr ⟨hi, hc⟩))
  refine ⟨⟨cs, ?_, ?_, hstart⟩, ?_⟩
  · rw [htells.path]
    exact hpieces
  · rw [hname]
    exact hc
  · rw [hname, htells.path]
    exact prefix_of_starts [] hsplits hstart hc

theorem match?_sameCase (hname : context.name.OneClass) (ht : Template.ofString template = .ok t)
    (h : compile context template = .ok p) (honce : t.fields.count .taskName ≤ 1)
    (hsame : sameIgnoringAsciiCase path.toList path'.toList) (hmatch : p.match? path = some r) :
    ∃ r', p.match? path' = some r' ∧ SameReading p t r r' := by
  obtain ⟨cs, hcs, htells⟩ := (match?_eq_some_iff hname ht h).mp hmatch
  obtain ⟨cs', hcs', hsames⟩ := hcs.sameCase hsame
  have hdigits (field : Field) (c : List Char) (hmem : (field, c) ∈ stated t.fields cs)
      (hfield : field = .groupNumber ∨ field = .testNumber) : AllDigits c := by
    obtain ⟨q, rfl, hq⟩ := admits_of_splits hcs.1 (List.mem_filter.mp hmem).1
    exact allDigits_of_admits hq hfield
  obtain ⟨r', htells', hgroup, htest, hnames⟩ := htells.sameCase path' honce hdigits hsames
  refine ⟨r', (match?_eq_some_iff hname ht h).mpr ⟨cs', hcs', htells'⟩, hgroup, htest, hnames, fun i hi => ?_⟩
  have hstarts := starts_congr t.parts 0 (map_length_of_sameCase hsames)
  obtain ⟨hlt, -⟩ := List.getElem?_eq_some_iff.mp hi
  rw [Template.fields, List.length_map, ← length_starts 0 (length_of_splits hcs.1)] at hlt
  have hstart : ∃ start, (starts t.parts 0 cs)[i]? = some start := ⟨_, List.getElem?_eq_getElem hlt⟩
  obtain ⟨start, hstart⟩ := hstart
  refine ⟨start, nameStands_of_tells ((pieces_eq_some_iff hname ht h).mpr hcs) hcs.1 htells honce hi hstart, ?_⟩
  rw [hstarts] at hstart
  exact nameStands_of_tells ((pieces_eq_some_iff hname ht h).mpr hcs') hcs'.1 htells' honce hi hstart

/-- Paths that differ in the case of ASCII letters only are both matched or both not, and then they are of the same
test and have the same task name in another case, in the same place. -/
theorem match_ignores_case (hname : context.name.OneClass) (h : compile context template = .ok p)
    (honce : p.fields.count .taskName ≤ 1) (hsame : sameIgnoringAsciiCase path.toList path'.toList) :
    ∃ t, Template.ofString template = .ok t ∧ ((p.match? path).isSome ↔ (p.match? path').isSome) ∧
      ∀ r r', p.match? path = some r → p.match? path' = some r' → SameReading p t r r' := by
  obtain ⟨t, ht, -, hfields, -⟩ := compile_eq_ok h
  rw [hfields] at honce
  refine ⟨t, ht, ⟨fun hmatch => ?_, fun hmatch => ?_⟩, fun r r' hr hr' => ?_⟩
  · obtain ⟨r, hr⟩ := Option.isSome_iff_exists.mp hmatch
    obtain ⟨r', hr', -⟩ := match?_sameCase hname ht h honce hsame hr
    exact Option.isSome_iff_exists.mpr ⟨r', hr'⟩
  · obtain ⟨r, hr⟩ := Option.isSome_iff_exists.mp hmatch
    obtain ⟨r', hr', -⟩ := match?_sameCase hname ht h honce (sameIgnoringAsciiCase_symm hsame) hr
    exact Option.isSome_iff_exists.mpr ⟨r', hr'⟩
  · obtain ⟨_, hsome, hreading⟩ := match?_sameCase hname ht h honce hsame hr
    rw [hr'] at hsome
    cases hsome
    exact hreading

/-- A class that leaves out two letters, one of them written as a capital. -/
theorem match_ignores_case_set :
    ((NameRule.chars "a-z&&[^xQ]").OneClass ∧ sameIgnoringAsciiCase "v2/aB10c.IN".toList "V2/Ab10C.in".toList) ∧
    ∃ p t, compile ⟨.chars "a-z&&[^xQ]", .latin⟩ "v${S}/${TaskName}10${SL}.in" = .ok p ∧
      p.match? "v2/aB10c.IN" = some ⟨"v2/aB10c.IN", "aB", 2, 3⟩ ∧
      p.match? "V2/Ab10C.in" = some ⟨"V2/Ab10C.in", "Ab", 2, 3⟩ ∧ p.match? "v2/aq10c.in" = none ∧
      SameReading p t ⟨"v2/aB10c.IN", "aB", 2, 3⟩ ⟨"V2/Ab10C.in", "Ab", 2, 3⟩ := by
  have hname : (Context.mk (.chars "a-z&&[^xQ]") .latin).name.OneClass := ⟨_, rfl⟩
  have hsame : sameIgnoringAsciiCase "v2/aB10c.IN".toList "V2/Ab10C.in".toList := by decide
  have hcompile : ∃ p, compile ⟨.chars "a-z&&[^xQ]", .latin⟩ "v${S}/${TaskName}10${SL}.in" = .ok p ∧
      p.fields.count .taskName ≤ 1 ∧ p.match? "v2/aB10c.IN" = some ⟨"v2/aB10c.IN", "aB", 2, 3⟩ ∧
      p.match? "V2/Ab10C.in" = some ⟨"V2/Ab10C.in", "Ab", 2, 3⟩ ∧ p.match? "v2/aq10c.in" = none :=
    ⟨_, rfl, by decide, by decide +kernel, by decide +kernel, by decide +kernel⟩
  obtain ⟨p, hp, honce, hmatch, hmatch', hnone⟩ := hcompile
  obtain ⟨t, -, -, hreading⟩ := match_ignores_case hname hp honce hsame
  exact ⟨⟨hname, hsame⟩, p, t, hp, hmatch, hmatch', hnone, hreading _ _ hmatch hmatch'⟩

end Pattern

end ContestTests
