import ContestTests.Proofs.Detection.Acceptance
import ContestTests.Proofs.Task.Scanning
import ContestTests.Proofs.Template.Matching

/-!
# Inputs and their outputs

The inputs and outputs of a task are put side by side by their tests alone. Files of the same test come
in the order of their paths on both sides, so an input meets the output with the same texts exactly if
these orders agree.
-/

namespace ContestTests

open Template (Alphabet Field)

def Pattern.captured (p : Pattern) (path : String) : Option (List (Option (List Char))) :=
  (p.regex.search path.toList).map fun caps => (List.range p.fields.length).map fun i => caps.lookup (i + 1)

-- ---------------------------------------------------------------------------
-- Equal texts
-- ---------------------------------------------------------------------------

theorem Pattern.readFields_congr {letters : Alphabet} {caps caps' : Regex.Captures} {fields : List Field} {index : Nat}
    {reading : Pattern.Reading}
    (h : ∀ i, i < fields.length → caps.lookup (index + i) = caps'.lookup (index + i)) :
    readFields letters caps index fields reading = readFields letters caps' index fields reading := by
  induction fields generalizing index reading with
  | nil => rfl
  | cons field fields ih =>
    have hrest (reading : Pattern.Reading) :
        readFields letters caps (index + 1) fields reading = readFields letters caps' (index + 1) fields reading := by
      refine ih fun i hi => ?_
      rw [Nat.add_assoc, Nat.add_comm 1 i]
      exact h (i + 1) (Nat.succ_lt_succ hi)
    have hfirst : caps.lookup index = caps'.lookup index := h 0 (Nat.succ_pos _)
    simp only [readFields, hfirst, hrest]

theorem Pattern.key_eq_of_captured {input output : Pattern} {path path' : String} {a b : Record}
    (hfields : input.fields = output.fields) (hletters : input.letters = output.letters)
    (ha : input.match? path = some a) (hb : output.match? path' = some b)
    (h : input.captured path = output.captured path') : a.key = b.key := by
  simp only [match?, bind, Option.bind_eq_some_iff] at ha hb
  obtain ⟨caps, hcaps, reading, hreading, group, hgroup, he⟩ := ha
  obtain ⟨caps', hcaps', reading', hreading', group', hgroup', he'⟩ := hb
  simp only [captured, hcaps, hcaps', Option.map_some, Option.some.injEq, hfields, List.map_inj_left, List.mem_range] at h
  have hsame : readFields input.letters caps 1 input.fields ⟨none, none, none⟩ =
      readFields output.letters caps' 1 output.fields ⟨none, none, none⟩ := by
    rw [hfields, hletters]
    refine readFields_congr fun i hi => ?_
    rw [Nat.add_comm]
    exact h i hi
  rw [hsame, hreading'] at hreading
  cases hreading
  rw [hgroup'] at hgroup
  cases hgroup
  cases he
  cases he'
  rfl

-- ---------------------------------------------------------------------------
-- Lists side by side
-- ---------------------------------------------------------------------------

namespace Record

variable {R : Record → Record → Prop} [DecidableRel R] {as bs : List Record}

/-- Every record on either side has exactly one on the other side. -/
structure OneToOne (R : Record → Record → Prop) [DecidableRel R] (as bs : List Record) : Prop where
  right : ∀ a ∈ as, (bs.countP fun b => R a b) = 1
  left : ∀ b ∈ bs, (as.countP fun a => R a b) = 1

/-- Records of one key come in the same order as those they belong to. -/
def SameOrder (R : Record → Record → Prop) (as bs : List Record) : Prop :=
  ∀ a ∈ as, ∀ a' ∈ as, ∀ b ∈ bs, ∀ b' ∈ bs, R a b → R a' b' → a.key = a'.key → a.path < a'.path → b.path < b'.path

instance : Decidable (SameOrder R as bs) :=
  inferInstanceAs (Decidable (∀ a ∈ as, ∀ a' ∈ as, ∀ b ∈ bs, ∀ b' ∈ bs,
    R a b → R a' b' → a.key = a'.key → a.path < a'.path → b.path < b'.path))

theorem existsUnique_of_countP {P : Record → Prop} [DecidablePred P] (h : (bs.countP fun b => P b) = 1) :
    ∃! b, b ∈ bs ∧ P b := by
  rw [List.countP_eq_length_filter, List.length_eq_one_iff] at h
  obtain ⟨b, hb⟩ := h
  have hmem (x : Record) : x ∈ bs ∧ P x ↔ x = b := by
    rw [← List.mem_singleton, ← hb, List.mem_filter, decide_eq_true_iff]
  exact ⟨b, (hmem b).mpr rfl, fun x => (hmem x).mp⟩

theorem OneToOne.existsUnique_right (h : OneToOne R as bs) (ha : a ∈ as) : ∃! b, b ∈ bs ∧ R a b :=
  existsUnique_of_countP (h.right a ha)

theorem OneToOne.existsUnique_left (h : OneToOne R as bs) (hb : b ∈ bs) : ∃! a, a ∈ as ∧ R a b :=
  existsUnique_of_countP (h.left b hb)

omit [DecidableRel R] in
theorem exists_forall₂ (h : ∀ a ∈ as, ∃ b, R a b) : ∃ bs, List.Forall₂ R as bs := by
  induction as with
  | nil => exact ⟨[], .nil⟩
  | cons a as ih =>
    obtain ⟨⟨b, hb⟩, hrest⟩ := List.forall_mem_cons.mp h
    obtain ⟨bs, hbs⟩ := ih hrest
    exact ⟨b :: bs, .cons hb hbs⟩

theorem sameOrder_of_forall₂ (hone : OneToOne R as bs) (has : as.Pairwise Before) (hbs : bs.Pairwise Before)
    (hkey : ∀ a ∈ as, ∀ b ∈ bs, R a b → a.key = b.key) (h : List.Forall₂ R as bs) : SameOrder R as bs := by
  intro a ha a' ha' b hb b' hb' hab hab' hsame hlt
  obtain ⟨hlength, hmeet⟩ := List.forall₂_iff_get.mp h
  obtain ⟨i, hi, rfl⟩ := List.getElem_of_mem ha
  obtain ⟨j, hj, rfl⟩ := List.getElem_of_mem ha'
  -- Each meets the only record that it can belong to.
  have hb_eq : b = bs[i] := (hone.existsUnique_right ha).unique ⟨hb, hab⟩ ⟨List.getElem_mem _, hmeet i hi (hlength ▸ hi)⟩
  have hb'_eq : b' = bs[j] := (hone.existsUnique_right ha').unique ⟨hb', hab'⟩ ⟨List.getElem_mem _, hmeet j hj (hlength ▸ hj)⟩
  rw [List.pairwise_iff_getElem] at has hbs
  rcases Nat.lt_trichotomy i j with hij | rfl | hji
  · have hbefore := hbs i j (hlength ▸ hi) (hlength ▸ hj) hij
    rw [← hb_eq, ← hb'_eq] at hbefore
    exact hbefore.2 ((hkey _ ha b hb hab).symm.trans (hsame.trans (hkey _ ha' b' hb' hab')))
  · exact absurd hlt (String.lt_irrefl _)
  · exact absurd hlt (String.lt_asymm ((has j i hj hi hji).2 hsame.symm))

theorem forall₂_of_sameOrder (hone : OneToOne R as bs) (has : as.Pairwise Before) (hbs : bs.Pairwise Before)
    (hkey : ∀ a ∈ as, ∀ b ∈ bs, R a b → a.key = b.key) (h : SameOrder R as bs) : List.Forall₂ R as bs := by
  obtain ⟨partners, hpartners⟩ := @exists_forall₂ (fun a b => b ∈ bs ∧ R a b) as fun a ha => (hone.existsUnique_right ha).exists
  obtain ⟨hlength, hmeet⟩ := List.forall₂_iff_get.mp hpartners
  simp only [List.get_eq_getElem] at hmeet
  -- Put beside the records they belong to, the others are in order as well.
  have hordered : partners.Pairwise Before := by
    rw [List.pairwise_iff_getElem] at has ⊢
    intro i j hi hj hij
    obtain ⟨hmemi, hi'⟩ := hmeet i (hlength ▸ hi) hi
    obtain ⟨hmemj, hj'⟩ := hmeet j (hlength ▸ hj) hj
    obtain ⟨hnotAfter, hpath⟩ := has i j (hlength ▸ hi) (hlength ▸ hj) hij
    have hkeyi := hkey _ (List.getElem_mem _) _ hmemi hi'
    have hkeyj := hkey _ (List.getElem_mem _) _ hmemj hj'
    refine ⟨notAfter_congr hkeyi hkeyj hnotAfter, fun he => ?_⟩
    have hsame := hkeyi.trans (he.trans hkeyj.symm)
    exact h _ (List.getElem_mem _) _ (List.getElem_mem _) _ hmemi _ hmemj hi' hj' hsame (hpath hsame)
  have hperm : partners.Perm bs := by
    refine (List.perm_ext_iff_of_nodup (nodup_of_before hordered) (nodup_of_before hbs)).mpr fun b => ⟨fun hb => ?_, fun hb => ?_⟩
    · obtain ⟨a, -, hmem, -⟩ := exists_of_mem_right hpartners hb
      exact hmem
    · obtain ⟨a, ⟨ha, hab⟩, -⟩ := hone.existsUnique_left hb
      obtain ⟨i, hi, rfl⟩ := List.getElem_of_mem ha
      obtain ⟨hmem, hi'⟩ := hmeet i hi (hlength ▸ hi)
      rw [(hone.existsUnique_right ha).unique ⟨hb, hab⟩ ⟨hmem, hi'⟩]
      exact List.getElem_mem _
  have heq : partners = bs :=
    hperm.eq_of_pairwise (fun a b _ _ hab hba => absurd hba hab.asymm) hordered hbs
  rw [heq] at hpartners
  exact hpartners.imp fun a b => And.right

end Record

namespace Detection

variable {t : Tree} {context : Template.Context} {options : Options} {definition : Definition} {c : Candidate}
  {input output p : Pattern} {tasks : List Task} {a b : Record} {root : String} {level : Nat}

/-- The texts of all placeholders are the same. -/
def Corresponds (input output : Pattern) (a b : Record) : Prop := input.captured a.path = output.captured b.path

instance : DecidableRel (Corresponds input output) :=
  fun a b => inferInstanceAs (Decidable (input.captured a.path = output.captured b.path))

/-- Both templates have the same placeholders in the same order. -/
def SamePlaceholders (definition : Definition) : Prop :=
  ∃ first second, Template.ofString definition.input = .ok first ∧ Template.ofString definition.output = .ok second ∧
    first.parts.map Prod.snd = second.parts.map Prod.snd

theorem SamePlaceholders.fields (h : SamePlaceholders definition)
    (hinput : Pattern.compile context definition.input = .ok input)
    (houtput : Pattern.compile context definition.output = .ok output) : input.fields = output.fields := by
  obtain ⟨first, second, hfirst, hsecond, hsame⟩ := h
  obtain ⟨t, ht, -, hfields, -⟩ := Pattern.compile_eq_ok hinput
  obtain ⟨t', ht', -, hfields', -⟩ := Pattern.compile_eq_ok houtput
  rw [hfirst] at ht
  rw [hsecond] at ht'
  cases ht
  cases ht'
  have hmap := congrArg (List.map Template.Placeholder.field) hsame
  rw [List.map_map, List.map_map] at hmap
  rw [hfields, hfields']
  exact hmap

theorem records_sorted {paths : List String} (hsorted : paths.Pairwise fun a b => a ≤ b) (honce : ListedOnce p paths) :
    (p.records paths).Pairwise fun a b => a.path < b.path := by
  have hle : ((p.records paths).map Record.path).Pairwise fun a b => a ≤ b := by
    rw [map_path_records]
    exact hsorted.filter _
  exact List.pairwise_map.mp ((hle.and (nodup_records_iff.mpr honce)).imp fun h => Std.lt_of_le_of_ne h.1 h.2)

theorem mem_records : a ∈ p.records paths ↔ a.path ∈ paths ∧ p.match? a.path = some a := by
  rw [Pattern.records, List.mem_filterMap]
  constructor
  · rintro ⟨path, hpath, hmatch⟩
    obtain rfl := match?_path hmatch
    exact ⟨hpath, hmatch⟩
  · rintro ⟨hpath, hmatch⟩
    exact ⟨_, hpath, hmatch⟩

/-- What stands side by side is of the same test. Where every file has one with the same texts on the other side, these
stand side by side exactly if files of the same test come in the same order on both sides. -/
theorem corresponding_side_by_side_iff (hscan : Task.scan t root level = .ok tasks)
    (hevaluate : evaluate t context options definition tasks = .ok c) (hboth : options.infilesOnly = false)
    (hsame : SamePlaceholders definition) :
    ∃ input output, Pattern.compile context definition.input = .ok input ∧
      Pattern.compile context definition.output = .ok output ∧ ∀ m ∈ c.tasks,
        m.inputs.map Record.key = m.outputs.map Record.key ∧
          (Record.OneToOne (Corresponds input output) m.inputs m.outputs →
            (List.Forall₂ (Corresponds input output) m.inputs m.outputs ↔
              Record.SameOrder (Corresponds input output) m.inputs m.outputs)) := by
  obtain ⟨input, output, hinput, houtput, hfits, -, hholds⟩ := evaluate_eq_ok_iff.mp hevaluate
  have hfields := hsame.fields hinput houtput
  have hletters : input.letters = output.letters := by
    obtain ⟨-, -, -, -, hletters⟩ := Pattern.compile_eq_ok hinput
    obtain ⟨-, -, -, -, hletters'⟩ := Pattern.compile_eq_ok houtput
    rw [hletters, hletters']
  refine ⟨input, output, hinput, houtput, fun m hm => ?_⟩
  obtain ⟨task, htask, hhold⟩ := exists_of_mem_right hholds hm
  have hfit := hfits task htask
  have hpaired := hfit.paired hboth
  have hsorted := Task.scan_sorted hscan htask
  obtain rfl := holds_iff.mp hhold
  rw [outputRecords, hboth, if_neg (by simp)]
  refine ⟨Record.map_key_sort_eq_iff.mpr hpaired.sameTests, fun hone => ?_⟩
  have hkey : ∀ a ∈ Record.sort (input.records task.files), ∀ b ∈ Record.sort (output.records task.files),
      Corresponds input output a b → a.key = b.key := by
    intro a ha b hb
    exact Pattern.key_eq_of_captured hfields hletters (mem_records.mp (Record.mem_sort.mp ha)).2
      (mem_records.mp (Record.mem_sort.mp hb)).2
  have hins := Record.sort_before (records_sorted hsorted hfit.once)
  have houts := Record.sort_before (records_sorted hsorted hpaired.once)
  exact ⟨Record.sameOrder_of_forall₂ hone hins houts hkey, Record.forall₂_of_sameOrder hone hins houts hkey⟩

def letterScheme (ending : String) : Definition := ⟨"letters", "$\x7bS\x7d$[SL].in", "$\x7bS\x7d$[SL]" ++ ending, .none⟩

def taskTree (files : List String) : Tree :=
  { Tree.empty with entries := (["tasks"], .directory) :: files.map fun file => (["tasks", file], .file .empty) }

def letterMatch (outputs : List String) : Candidate := ⟨"letters", [⟨"",
  [⟨"1.in", "", 1, 1⟩, ⟨"1A.in", "", 1, 1⟩], outputs.map fun path => ⟨path, "", 1, 1⟩⟩]⟩

theorem samePlaceholders_letterScheme : SamePlaceholders (letterScheme ".out") ∧ SamePlaceholders (letterScheme "_out") :=
  ⟨⟨_, _, rfl, rfl, rfl⟩, _, _, rfl, rfl, rfl⟩

theorem corresponding_side_by_side_iff_letters :
    (Task.scan (taskTree ["1.in", "1.out", "1A.in", "1A.out"]) "tasks" 0 =
        .ok [⟨"", ["1.in", "1.out", "1A.in", "1A.out"]⟩] ∧
      evaluate (taskTree ["1.in", "1.out", "1A.in", "1A.out"]) .default ⟨false, "w"⟩ (letterScheme ".out")
        [⟨"", ["1.in", "1.out", "1A.in", "1A.out"]⟩] = .ok (letterMatch ["1.out", "1A.out"]) ∧
      SamePlaceholders (letterScheme ".out")) ∧
    ∃ input output, Pattern.compile .default (letterScheme ".out").input = .ok input ∧
      Pattern.compile .default (letterScheme ".out").output = .ok output ∧
        ∀ m ∈ (letterMatch ["1.out", "1A.out"]).tasks, List.Forall₂ (Corresponds input output) m.inputs m.outputs := by
  have hscan : Task.scan (taskTree ["1.in", "1.out", "1A.in", "1A.out"]) "tasks" 0 =
      .ok [⟨"", ["1.in", "1.out", "1A.in", "1A.out"]⟩] := by decide +kernel
  have hdetected : ∃ input output, Pattern.compile .default (letterScheme ".out").input = .ok input ∧
      Pattern.compile .default (letterScheme ".out").output = .ok output ∧
        evaluate (taskTree ["1.in", "1.out", "1A.in", "1A.out"]) .default ⟨false, "w"⟩ (letterScheme ".out")
          [⟨"", ["1.in", "1.out", "1A.in", "1A.out"]⟩] = .ok (letterMatch ["1.out", "1A.out"]) ∧
        ∀ m ∈ (letterMatch ["1.out", "1A.out"]).tasks, Record.OneToOne (Corresponds input output) m.inputs m.outputs ∧
          Record.SameOrder (Corresponds input output) m.inputs m.outputs := by
    refine ⟨_, _, rfl, rfl, evaluate_ordered rfl rfl (by decide +kernel) rfl (by decide) (by decide) (by decide +kernel)
      (by decide +kernel), fun m hm => ?_⟩
    rw [List.mem_singleton.mp hm]
    exact ⟨⟨by decide +kernel, by decide +kernel⟩, by decide +kernel⟩
  obtain ⟨input, output, hinput, houtput, hevaluate, hcorrespond⟩ := hdetected
  obtain ⟨input', output', hinput', houtput', hside⟩ :=
    corresponding_side_by_side_iff hscan hevaluate rfl samePlaceholders_letterScheme.1
  cases hinput.symm.trans hinput'
  cases houtput.symm.trans houtput'
  refine ⟨⟨hscan, hevaluate, samePlaceholders_letterScheme.1⟩, input, output, hinput, houtput, fun m hm => ?_⟩
  exact ((hside m hm).2 (hcorrespond m hm).1).mpr (hcorrespond m hm).2

/-- One output comes before the other, since a letter comes before the sign that ends a name. -/
theorem corresponding_crossed :
    Task.scan (taskTree ["1.in", "1A.in", "1A_out", "1_out"]) "tasks" 0 =
      .ok [⟨"", ["1.in", "1A.in", "1A_out", "1_out"]⟩] ∧
    SamePlaceholders (letterScheme "_out") ∧
    ∃ input output, Pattern.compile .default (letterScheme "_out").input = .ok input ∧
      Pattern.compile .default (letterScheme "_out").output = .ok output ∧
      evaluate (taskTree ["1.in", "1A.in", "1A_out", "1_out"]) .default ⟨false, "w"⟩ (letterScheme "_out")
        [⟨"", ["1.in", "1A.in", "1A_out", "1_out"]⟩] = .ok (letterMatch ["1A_out", "1_out"]) ∧
      ∀ m ∈ (letterMatch ["1A_out", "1_out"]).tasks, Record.OneToOne (Corresponds input output) m.inputs m.outputs ∧
        ¬ List.Forall₂ (Corresponds input output) m.inputs m.outputs := by
  refine ⟨by decide +kernel, samePlaceholders_letterScheme.2, _, _, rfl, rfl, evaluate_ordered rfl rfl
    (by decide +kernel) rfl (by decide) (by decide) (by decide +kernel) (by decide +kernel), fun m hm => ?_⟩
  rw [List.mem_singleton.mp hm]
  exact ⟨⟨by decide +kernel, by decide +kernel⟩, by decide +kernel⟩

end Detection

end ContestTests
