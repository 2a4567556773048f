import ContestTests.Proofs.Template.WrittenOut

/-!
# Fixed names

A template that compiles for a fixed task name says the same as the text in which the name is written out. Both cut a
path in the same places, since all texts of a name are of one length. Only that the names of a path are spelled alike
has to be asked of the matches of the text.
-/

namespace ContestTests

open Text

namespace Template

variable {s a b literal path tail : List Char} {t : Template} {p : Placeholder} {context : Context}
  {parts : List (List Char × Placeholder)} {cs ds : List (List Char)} {letters : Alphabet}

-- ---------------------------------------------------------------------------
-- Cuts
-- ---------------------------------------------------------------------------

def withoutNames : List (List Char × Placeholder) → List (List Char) → List (List Char)
  | (_, p) :: parts, c :: cs => if p.field = .taskName then withoutNames parts cs else c :: withoutNames parts cs
  | _, _ => []

def namesAmong : List (List Char × Placeholder) → List (List Char) → List (List Char)
  | (_, p) :: parts, c :: cs => if p.field = .taskName then c :: namesAmong parts cs else namesAmong parts cs
  | _, _ => []

/-- What stands in a path where names of this length are written, if the other placeholders have these texts. -/
def standing (length : Nat) : List (List Char × Placeholder) → List Char → List (List Char) → List (List Char)
  | [], _, _ => []
  | (literal, p) :: parts, path, cs =>
    if p.field = .taskName then
      (path.drop literal.length).take length :: standing length parts (path.drop (literal.length + length)) cs
    else standing length parts (path.drop (literal.length + (cs.headD []).length)) cs.tail

theorem splits_behind : Splits context (Template.behind literal t).tail (Template.behind literal t).parts path cs ↔
    ∃ l rest, path = l ++ rest ∧ SameFold l literal ∧ Splits context t.tail t.parts rest cs := by
  obtain ⟨parts, tail⟩ := t
  cases parts with
  | nil =>
    simp only [Template.behind, Splits, sameFold_append_iff]
    constructor
    · rintro ⟨⟨l, rest, hpath, hl, hrest⟩, hcs⟩
      exact ⟨l, rest, hpath, hl, hrest, hcs⟩
    · rintro ⟨l, rest, hpath, hl, hrest, hcs⟩
      exact ⟨⟨l, rest, hpath, hl, hrest⟩, hcs⟩
  | cons part parts =>
    simp only [Template.behind, Splits, sameFold_append_iff]
    constructor
    · rintro ⟨_, c, rest, cs, rfl, ⟨l, l', rfl, hl, hl'⟩, hc, hrest, rfl⟩
      exact ⟨l, l' ++ (c ++ rest), List.append_assoc _ _ _, hl, l', c, rest, cs, rfl, hl', hc, hrest, rfl⟩
    · rintro ⟨l, _, rfl, hl, l', c, rest, cs, rfl, hl', hc, hrest, rfl⟩
      exact ⟨l ++ l', c, rest, cs, (List.append_assoc _ _ _).symm, ⟨l, l', rfl, hl, hl'⟩, hc, hrest, rfl⟩

section Fixed

variable {name : String}

theorem admits_taskName {c : List Char} (hfield : p.field = .taskName) :
    p.Admits ⟨.fixed name, letters⟩ c ↔ SameFold c name.toList := by
  obtain ⟨field, presence⟩ := p
  cases hfield
  exact Iff.rfl

theorem splits_named : Splits ⟨.fixed name, letters⟩ (Template.named name.toList parts tail).tail
      (Template.named name.toList parts tail).parts path ds ↔
    ∃ cs, Splits ⟨.fixed name, letters⟩ tail parts path cs ∧ withoutNames parts cs = ds := by
  induction parts generalizing path ds with
  | nil =>
    constructor
    · rintro ⟨hpath, rfl⟩
      exact ⟨[], ⟨hpath, rfl⟩, rfl⟩
    · rintro ⟨cs, ⟨hpath, rfl⟩, rfl⟩
      exact ⟨hpath, rfl⟩
  | cons part parts ih =>
    obtain ⟨literal, p⟩ := part
    rw [Template.named]
    by_cases hfield : p.field = .taskName
    · rw [if_pos hfield, splits_behind]
      simp only [ih, Splits, sameFold_append_iff, admits_taskName hfield]
      constructor
      · rintro ⟨_, rest, rfl, ⟨l, c, rfl, hl, hc⟩, cs, hcs, rfl⟩
        exact ⟨c :: cs, ⟨l, c, rest, cs, List.append_assoc _ _ _, hl, hc, hcs, rfl⟩,
          by rw [withoutNames, if_pos hfield]⟩
      · rintro ⟨_, ⟨l, c, rest, cs, rfl, hl, hc, hcs, rfl⟩, rfl⟩
        exact ⟨l ++ c, rest, (List.append_assoc _ _ _).symm, ⟨l, c, rfl, hl, hc⟩, cs, hcs,
          by rw [withoutNames, if_pos hfield]⟩
    · rw [if_neg hfield]
      simp only [ih, Splits]
      constructor
      · rintro ⟨l, c, rest, _, rfl, hl, hc, ⟨cs, hcs, rfl⟩, rfl⟩
        exact ⟨c :: cs, ⟨l, c, rest, cs, rfl, hl, hc, hcs, rfl⟩, by rw [withoutNames, if_neg hfield]⟩
      · rintro ⟨_, ⟨l, c, rest, cs, rfl, hl, hc, hcs, rfl⟩, rfl⟩
        exact ⟨l, c, rest, _, rfl, hl, hc, ⟨cs, hcs, rfl⟩, by rw [withoutNames, if_neg hfield]⟩

/-- All names are of one length, so the other texts decide which of two cuts is greater. -/
theorem noLonger_withoutNames {path' : List Char} (hcs : Splits ⟨.fixed name, letters⟩ tail parts path cs)
    (hds : Splits ⟨.fixed name, letters⟩ tail parts path' ds) :
    NoLonger ((withoutNames parts ds).map List.length) ((withoutNames parts cs).map List.length) ↔
      NoLonger (ds.map List.length) (cs.map List.length) := by
  induction parts generalizing path path' cs ds with
  | nil =>
    obtain ⟨-, rfl⟩ := hcs
    obtain ⟨-, rfl⟩ := hds
    exact Iff.rfl
  | cons part parts ih =>
    obtain ⟨_, c, _, cs, -, -, hc, hcs, rfl⟩ := hcs
    obtain ⟨_, d, _, ds, -, -, hd, hds, rfl⟩ := hds
    rw [withoutNames, withoutNames]
    by_cases hfield : part.2.field = .taskName
    · have hlength := ((admits_taskName hfield).mp hd).length_eq.trans ((admits_taskName hfield).mp hc).length_eq.symm
      rw [if_pos hfield, if_pos hfield, ih hcs hds]
      simp [NoLonger, hlength]
    · rw [if_neg hfield, if_neg hfield]
      simp only [List.map_cons, NoLonger, ih hcs hds]

theorem greatest_named : Greatest ⟨.fixed name, letters⟩ (Template.named name.toList parts tail).tail
      (Template.named name.toList parts tail).parts path ds ↔
    ∃ cs, Greatest ⟨.fixed name, letters⟩ tail parts path cs ∧ withoutNames parts cs = ds := by
  constructor
  · rintro ⟨hsplits, hmax⟩
    obtain ⟨cs, hcs, rfl⟩ := splits_named.mp hsplits
    refine ⟨cs, ⟨hcs, fun cs' hcs' => ?_⟩, rfl⟩
    exact (noLonger_withoutNames hcs hcs').mp (hmax _ (splits_named.mpr ⟨cs', hcs', rfl⟩))
  · rintro ⟨cs, ⟨hcs, hmax⟩, rfl⟩
    refine ⟨splits_named.mpr ⟨cs, hcs, rfl⟩, fun ds' hds' => ?_⟩
    obtain ⟨cs', hcs', rfl⟩ := splits_named.mp hds'
    exact (noLonger_withoutNames hcs hcs').mpr (hmax cs' hcs')

/-- The names are what stands in the path where they are written. -/
theorem standing_withoutNames (h : Splits ⟨.fixed name, letters⟩ tail parts path cs) :
    standing name.toList.length parts path (withoutNames parts cs) = namesAmong parts cs := by
  induction parts generalizing path cs with
  | nil => rfl
  | cons part parts ih =>
    obtain ⟨l, c, rest, cs, rfl, hl, hc, hrest, rfl⟩ := h
    have hdrop (n : Nat) : (l ++ (c ++ rest)).drop (part.1.length + n) = (c ++ rest).drop n := by
      rw [← hl.length_eq, List.drop_append]
      simp
    rw [standing, withoutNames, namesAmong]
    by_cases hfield : part.2.field = .taskName
    · have hlength := ((admits_taskName hfield).mp hc).length_eq
      have hname := hdrop 0
      rw [Nat.add_zero, List.drop_zero] at hname
      rw [if_pos hfield, if_pos hfield, if_pos hfield, hname, hdrop, ← hlength, List.drop_left, List.take_left,
        hlength, ih hrest]
    · rw [if_neg hfield, if_neg hfield, if_neg hfield, List.headD_cons, List.tail_cons, hdrop, List.drop_left, ih hrest]

theorem ne_nil_of_mem_namesAmong (hname : name ≠ "") (h : Splits ⟨.fixed name, letters⟩ tail parts path cs)
    (hmem : s ∈ namesAmong parts cs) : s ≠ [] := by
  induction parts generalizing path cs with
  | nil => simp [namesAmong] at hmem
  | cons part parts ih =>
    obtain ⟨l, c, rest, cs, rfl, hl, hc, hrest, rfl⟩ := h
    rw [namesAmong] at hmem
    split at hmem
    · rename_i hfield
      rcases List.mem_cons.mp hmem with rfl | hmem
      · have hlength := ((admits_taskName hfield).mp hc).length_eq
        rintro rfl
        rw [List.length_nil, eq_comm, List.length_eq_zero_iff, String.toList_eq_nil_iff] at hlength
        exact hname hlength
      · exact ih hrest hmem
    · exact ih hrest hmem

end Fixed

theorem mem_namesAmong : s ∈ namesAmong parts cs ↔ (.taskName, s) ∈ (parts.map (·.2.field)).zip cs := by
  induction parts generalizing cs with
  | nil => simp [namesAmong]
  | cons part parts ih =>
    cases cs with
    | nil => simp [namesAmong]
    | cons c cs =>
      rw [namesAmong, List.map_cons, List.zip_cons_cons, List.mem_cons, Prod.mk.injEq, ← ih]
      by_cases hfield : part.2.field = .taskName
      · simp [hfield]
      · simp [hfield, Ne.symm hfield]

end Template

-- ---------------------------------------------------------------------------
-- Records
-- ---------------------------------------------------------------------------

namespace Pattern

open Template

variable {name template path : String} {letters : Alphabet} {t : Template} {p p' : Pattern} {r r' : Record}
  {parts : List (List Char × Placeholder)} {tail : List Char} {cs ds : List (List Char)}
  {texts : List (Field × List Char)}

/-- The texts of a path that stand where a template asks for the name, read off the text in which it is written. -/
def namesIn (name : String) (t : Template) (written : Pattern) (path : String) : List (List Char) :=
  ((written.pieces path.toList).map (standing name.toList.length t.parts path.toList)).getD []

theorem stated_cons (field : Field) (fields : List Field) (c : List Char) (cs : List (List Char)) :
    stated (field :: fields) (c :: cs) = if c = [] then stated fields cs else (field, c) :: stated fields cs := by
  by_cases hc : c = [] <;> simp [stated, hc]

theorem stated_named (hlength : cs.length = parts.length) :
    stated (named name.toList parts tail).fields (withoutNames parts cs) =
      (stated (parts.map (·.2.field)) cs).filter fun text => text.1 ≠ .taskName := by
  rw [fields_named]
  induction parts generalizing cs with
  | nil => rfl
  | cons part parts ih =>
    cases cs with
    | nil => cases hlength
    | cons c cs =>
      have hrest := ih (Nat.succ.inj hlength)
      simp only [ne_eq, decide_not] at hrest
      rw [withoutNames, List.map_cons, List.filter_cons, stated_cons]
      by_cases hfield : part.2.field = .taskName
      · by_cases hc : c = [] <;> simp [hfield, hc, hrest]
      · by_cases hc : c = [] <;> simp [hfield, hc, hrest, stated_cons]

/-- Another name is told where the texts beside names are the same. -/
theorem Tells.rename {texts' : List (Field × List Char)} {taskName : String} (h : Tells letters texts path r)
    (hsame : ∀ field, field ≠ .taskName → ∀ c, (field, c) ∈ texts' ↔ (field, c) ∈ texts)
    (htaskName : ∀ c, (.taskName, c) ∈ texts' → taskName = String.ofList c)
    (hnoName : (∀ c, (.taskName, c) ∉ texts') → taskName = "") :
    Tells letters texts' path { r with taskName := taskName } := by
  have hgroup := hsame .groupNumber (by decide)
  have htest := hsame .testNumber (by decide)
  have hletter := hsame .testLetter (by decide)
  refine ⟨h.path, ?_, fun c hc => h.group c ((hgroup c).mp hc), fun c hc => h.testNumber c ((htest c).mp hc),
    fun c hc => h.testLetter c ((hletter c).mp hc), fun hnone => h.noTest fun c => ?_, htaskName, hnoName⟩
  · obtain ⟨c, hc⟩ := h.aGroup
    exact ⟨c, (hgroup c).mpr hc⟩
  · exact ⟨fun hc => (hnone c).1 ((htest c).mpr hc), fun hc => (hnone c).2 ((hletter c).mpr hc)⟩

theorem tells_iff_beside : Tells letters texts path r ↔
    Tells letters (texts.filter fun text => text.1 ≠ .taskName) path { r with taskName := "" } ∧
      (∀ c, (.taskName, c) ∈ texts → r.taskName = String.ofList c) ∧
      ((∀ c, (.taskName, c) ∉ texts) → r.taskName = "") := by
  have hsame (field : Field) (hfield : field ≠ .taskName) (c : List Char) :
      (field, c) ∈ (texts.filter fun text => text.1 ≠ .taskName) ↔ (field, c) ∈ texts := by
    simp [List.mem_filter, hfield]
  constructor
  · intro h
    exact ⟨h.rename hsame (by simp) fun _ => rfl, h.taskName, h.noName⟩
  · rintro ⟨h, htaskName, hnoName⟩
    exact h.rename (fun field hfield c => (hsame field hfield c).symm) htaskName hnoName

theorem oneClass_fixed (name : String) (letters : Alphabet) : (Context.mk (.fixed name) letters).name.OneClass :=
  trivial

section Written

variable (hname : name ≠ "") (ht : Template.ofString template = .ok t)
  (h : compile ⟨.fixed name, letters⟩ template = .ok p)
  (ht' : Template.ofString (writtenOut name template) = .ok (named name.toList t.parts t.tail))
  (h' : compile ⟨.fixed name, letters⟩ (writtenOut name template) = .ok p')

include ht' h' in
/-- The names are those that the placeholders for them would read. -/
theorem namesIn_of_greatest (hcs : Greatest ⟨.fixed name, letters⟩ t.tail t.parts path.toList cs) :
    namesIn name t p' path = namesAmong t.parts cs := by
  have hds := greatest_named.mpr ⟨cs, hcs, rfl⟩
  rw [namesIn, (pieces_eq_some_iff (oneClass_fixed name letters) ht' h').mpr hds, Option.map_some, Option.getD_some,
    standing_withoutNames hcs.1]

include hname ht h ht' h' in
/-- The template reads what the text reads, and the name that stands in all its places. -/
theorem match?_iff_written (path : String) (r : Record) :
    p.match? path = some r ↔ p'.match? path = some { r with taskName := "" } ∧
      (∀ s ∈ namesIn name t p' path, r.taskName = String.ofList s) ∧ (namesIn name t p' path = [] → r.taskName = "") := by
  have hstated (cs : List (List Char)) (hcs : Greatest ⟨.fixed name, letters⟩ t.tail t.parts path.toList cs)
      (s : List Char) : (.taskName, s) ∈ stated t.fields cs ↔ s ∈ namesIn name t p' path := by
    rw [namesIn_of_greatest ht' h' hcs]
    constructor
    · intro hs
      exact mem_namesAmong.mpr (List.mem_filter.mp hs).1
    · intro hs
      exact List.mem_filter.mpr ⟨mem_namesAmong.mp hs, by simpa using ne_nil_of_mem_namesAmong hname hcs.1 hs⟩
  have htold (cs : List (List Char)) (hcs : Greatest ⟨.fixed name, letters⟩ t.tail t.parts path.toList cs) :
      Tells letters (stated t.fields cs) path r ↔
        Tells letters (stated (named name.toList t.parts t.tail).fields (withoutNames t.parts cs)) path
          { r with taskName := "" } ∧ (∀ s ∈ namesIn name t p' path, r.taskName = String.ofList s) ∧
        (namesIn name t p' path = [] → r.taskName = "") := by
    rw [tells_iff_beside, stated_named (length_of_splits hcs.1), ← Template.fields]
    simp only [hstated cs hcs, List.eq_nil_iff_forall_not_mem]
  rw [match?_eq_some_iff (oneClass_fixed name letters) ht h, match?_eq_some_iff (oneClass_fixed name letters) ht' h']
  constructor
  · rintro ⟨cs, hcs, htells⟩
    obtain ⟨hwritten, hnames⟩ := (htold cs hcs).mp htells
    exact ⟨⟨_, greatest_named.mpr ⟨cs, hcs, rfl⟩, hwritten⟩, hnames⟩
  · rintro ⟨⟨_, hds, hwritten⟩, hnames⟩
    obtain ⟨cs, hcs, rfl⟩ := greatest_named.mp hds
    exact ⟨cs, hcs, (htold cs hcs).mpr ⟨hwritten, hnames⟩⟩

include ht' h' in
theorem taskName_of_written (hmatch : p'.match? path = some r') : r'.taskName = "" := by
  obtain ⟨ds, -, htells⟩ := (match?_eq_some_iff (oneClass_fixed name letters) ht' h').mp hmatch
  refine htells.noName fun c hc => ?_
  have hfield := (List.of_mem_zip (List.mem_filter.mp hc).1).1
  rw [fields_named, List.mem_filter] at hfield
  simp at hfield

include hname ht h ht' h' in
/-- The name is read where all texts in its places are spelled alike. -/
theorem isSome_iff_written : (p.match? path).isSome ↔ (p'.match? path).isSome ∧
    ∀ s ∈ namesIn name t p' path, ∀ s' ∈ namesIn name t p' path, s = s' := by
  have hmatch := match?_iff_written hname ht h ht' h' path
  constructor
  · intro hsome
    obtain ⟨r, hr⟩ := Option.isSome_iff_exists.mp hsome
    obtain ⟨hwritten, hnames, -⟩ := (hmatch r).mp hr
    refine ⟨Option.isSome_iff_exists.mpr ⟨_, hwritten⟩, fun s hs s' hs' => ?_⟩
    exact String.ofList_injective ((hnames s hs).symm.trans (hnames s' hs'))
  · rintro ⟨hsome, halike⟩
    obtain ⟨r', hr'⟩ := Option.isSome_iff_exists.mp hsome
    have hname' := taskName_of_written ht' h' hr'
    have hr := (hmatch { r' with taskName := String.ofList ((namesIn name t p' path).headD []) }).mpr
    refine Option.isSome_iff_exists.mpr ⟨_, hr ⟨?_, fun s hs => ?_, ?_⟩⟩
    · rw [hr', ← hname']
    · obtain ⟨first, more, hnames⟩ := List.exists_cons_of_ne_nil (List.ne_nil_of_mem hs)
      rw [hnames] at hs halike ⊢
      rw [List.headD_cons, halike first List.mem_cons_self s hs]
    · intro hnone
      rw [hnone]
      rfl

include hname ht h ht' h' in
theorem eq_of_written (hr : p.match? path = some r) (hr' : p'.match? path = some r') :
    r.group = r'.group ∧ r.test = r'.test ∧ r.taskName = String.ofList ((namesIn name t p' path).headD []) := by
  obtain ⟨hwritten, hnames, hnone⟩ := (match?_iff_written hname ht h ht' h' path r).mp hr
  cases hr'.symm.trans hwritten
  refine ⟨rfl, rfl, ?_⟩
  cases hall : namesIn name t p' path with
  | nil => exact hnone hall
  | cons first more => exact hnames first (hall ▸ List.mem_cons_self)

end Written

/-- With the name written out a template compiles under every rule for names. -/
theorem exists_compile_written (hunopened : Unopened name.toList) (ht : Template.ofString template = .ok t)
    (h : compile ⟨.fixed name, letters⟩ template = .ok p) : ∃ p',
      compile ⟨.fixed name, letters⟩ (writtenOut name template) = .ok p' ∧
        ∀ rule, compile ⟨rule, letters⟩ (writtenOut name template) = .ok p' := by
  have ht' := ofString_writtenOut hunopened ht
  obtain ⟨t₀, ht₀, hregex, -⟩ := compile_eq_ok h
  cases ht.symm.trans ht₀
  have hsound := sound_of_ofText? (oneClass_fixed name letters) hregex
  obtain ⟨p', hp'⟩ := exists_compile (oneClass_fixed name letters) ht' fun part hpart => by
    obtain ⟨-, other, hother, he⟩ := of_mem_named hpart
    rw [← he]
    exact hsound other hother
  refine ⟨p', hp', fun rule => ?_⟩
  rw [← hp']
  exact compile_congr ht' (expression_congr fun part hpart => (of_mem_named hpart).1) rfl

/-- A fixed name is the same as the name written into the template: the text with the name compiles, it matches what the
template matches as soon as the names in a path are spelled alike, and reads the same test. The name is that spelling. -/
theorem fixed_name_written_out (hne : name ≠ "") (hchars : ∀ c ∈ name.toList, c ≠ '$' ∧ c ≠ '\x7b' ∧ c ≠ '[')
    (h : compile ⟨.fixed name, letters⟩ template = .ok p) (rule : NameRule) :
    ∃ t p', Template.ofString template = .ok t ∧ compile ⟨rule, letters⟩ (writtenOut name template) = .ok p' ∧
      ∀ path, ((p.match? path).isSome ↔ (p'.match? path).isSome ∧
          ∀ s ∈ namesIn name t p' path, ∀ s' ∈ namesIn name t p' path, s = s') ∧
        (∀ r r', p.match? path = some r → p'.match? path = some r' → r.group = r'.group ∧ r.test = r'.test ∧
          r.taskName = String.ofList ((namesIn name t p' path).headD [])) ∧
        ∀ cs, p.pieces path.toList = some cs → namesIn name t p' path = namesAmong t.parts cs := by
  obtain ⟨t, ht, -⟩ := compile_eq_ok h
  have hunopened : Unopened name.toList := ⟨fun hnil => hne (String.toList_eq_nil_iff.mp hnil), hchars⟩
  have ht' := ofString_writtenOut hunopened ht
  obtain ⟨p', hp', hrules⟩ := exists_compile_written hunopened ht h
  refine ⟨t, p', ht, hrules rule, fun path => ⟨isSome_iff_written hne ht h ht' hp', fun r r' hr hr' => ?_,
    fun cs hcs => ?_⟩⟩
  · exact eq_of_written hne ht h ht' hp' hr hr'
  · exact namesIn_of_greatest ht' hp' ((pieces_eq_some_iff (oneClass_fixed name letters) ht h).mp hcs)

/-- A name with a character that means something in an expression, asked for twice: both times it is in the same case,
or the template does not match. -/
theorem fixed_name_written_out_twice :
    ("c.w" ≠ "" ∧ ∀ c ∈ "c.w".toList, c ≠ '$' ∧ c ≠ '\x7b' ∧ c ≠ '[') ∧
    writtenOut "c.w" "$\x7bTaskName\x7d-$\x7bS\x7d/$\x7bTaskName\x7d.in" = "c.w-$\x7bS\x7d/c.w.in" ∧
    ∃ t p p', compile ⟨.fixed "c.w", .latin⟩ "$\x7bTaskName\x7d-$\x7bS\x7d/$\x7bTaskName\x7d.in" = .ok p ∧
      compile .default "c.w-$\x7bS\x7d/c.w.in" = .ok p' ∧
      p.match? "C.W-1/C.W.in" = some ⟨"C.W-1/C.W.in", "C.W", 1, 1⟩ ∧
      (namesIn "c.w" t p' "C.W-1/C.W.in").headD [] = "C.W".toList ∧
      p'.match? "c.w-1/C.W.in" = some ⟨"c.w-1/C.W.in", "", 1, 1⟩ ∧ p.match? "c.w-1/C.W.in" = none ∧
      ¬ ∀ s ∈ namesIn "c.w" t p' "c.w-1/C.W.in", ∀ s' ∈ namesIn "c.w" t p' "c.w-1/C.W.in", s = s' := by
  have hchars : ∀ c ∈ "c.w".toList, c ≠ '$' ∧ c ≠ '\x7b' ∧ c ≠ '[' := by simp
  have hwritten : writtenOut "c.w" "$\x7bTaskName\x7d-$\x7bS\x7d/$\x7bTaskName\x7d.in" = "c.w-$\x7bS\x7d/c.w.in" := by
    decide +kernel
  have hcompile : ∃ p, compile ⟨.fixed "c.w", .latin⟩ "$\x7bTaskName\x7d-$\x7bS\x7d/$\x7bTaskName\x7d.in" = .ok p ∧
      p.match? "C.W-1/C.W.in" = some ⟨"C.W-1/C.W.in", "C.W", 1, 1⟩ ∧ p.match? "c.w-1/C.W.in" = none :=
    ⟨_, rfl, by decide +kernel, by decide +kernel⟩
  have hcompile' : ∃ p', compile .default "c.w-$\x7bS\x7d/c.w.in" = .ok p' ∧
      p'.match? "C.W-1/C.W.in" = some ⟨"C.W-1/C.W.in", "", 1, 1⟩ ∧
      p'.match? "c.w-1/C.W.in" = some ⟨"c.w-1/C.W.in", "", 1, 1⟩ := ⟨_, rfl, by decide +kernel, by decide +kernel⟩
  obtain ⟨p, hp, hmatch, hnone⟩ := hcompile
  obtain ⟨p', hp', hmatch', hother⟩ := hcompile'
  obtain ⟨t, q, -, hq, hpaths⟩ := fixed_name_written_out (by decide) hchars hp (.chars "a-z")
  rw [hwritten] at hq
  obtain rfl : q = p' := Except.ok.inj (hq.symm.trans hp')
  obtain ⟨-, -, hname⟩ := (hpaths "C.W-1/C.W.in").2.1 _ _ hmatch hmatch'
  refine ⟨⟨by decide, hchars⟩, hwritten, t, p, q, hp, hp', hmatch, ?_, hother, hnone, fun halike => ?_⟩
  · rw [← String.toList_ofList (l := (namesIn "c.w" t q "C.W-1/C.W.in").headD []), ← hname]
  · have hsome := (hpaths "c.w-1/C.W.in").1.mpr ⟨by rw [hother]; rfl, halike⟩
    rw [hnone] at hsome
    cases hsome

end Pattern

end ContestTests
