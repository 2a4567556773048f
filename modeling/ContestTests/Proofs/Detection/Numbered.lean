import ContestTests.Proofs.Conversion.Script
import ContestTests.Proofs.Detection.Acceptance
import ContestTests.Proofs.Text.Numerals

/-!
# Numbered files as tests

A template of the group alone reads a numbered file as the test of its number, whatever the context. So where a
task holds the numbered files of its tests and beside them only a marks file that is none, the tests are
detected in the order of their numbers, although `10.in` is listed before `2.in`.
-/

namespace ContestTests

open ContestTests.Text

namespace Detection

open ContestTests.Template ContestTests.Conversion

variable {t : Tree} {context : Context} {options : Options} {p input output : Pattern} {isInput other : Bool}
  {index count n : Nat} {path name : String} {s digits : List Char} {cs : List (List Char)} {r : Record}
  {m : TaskMatch} {task : Task} {files : List String}

-- ---------------------------------------------------------------------------
-- The template
-- ---------------------------------------------------------------------------

def groupTemplate (isInput : Bool) : String := if isInput then "$\x7bS\x7d.in" else "$\x7bS\x7d.out"

def groupAlone (isInput : Bool) : Template :=
  ⟨[([], ⟨.groupNumber, .required⟩)], '.' :: (extension isInput).toList⟩

def ReadsAs (isInput : Bool) (group : Nat) (s : List Char) : Prop :=
  ∃ digits rest, s = digits ++ rest ∧ IsNumeral group digits ∧ SameFold rest ('.' :: (extension isInput).toList)

theorem ofString_groupTemplate (isInput : Bool) :
    Template.ofString (groupTemplate isInput) = .ok (groupAlone isInput) := by
  cases isInput <;> decide +kernel

theorem groupAlone_splits : Splits context (groupAlone isInput).tail (groupAlone isInput).parts s cs ↔
    ∃ digits rest, s = digits ++ rest ∧ (digits ≠ [] ∧ AllDigits digits) ∧
      SameFold rest ('.' :: (extension isInput).toList) ∧ cs = [digits] := by
  constructor
  · rintro ⟨l, digits, rest, cs', rfl, hl, hdigits, ⟨hrest, rfl⟩, rfl⟩
    rw [sameFold_nil.mp hl]
    exact ⟨digits, rest, rfl, hdigits, hrest, rfl⟩
  · rintro ⟨digits, rest, rfl, hdigits, hrest, rfl⟩
    exact ⟨[], digits, rest, [], rfl, sameFold_nil.mpr rfl, hdigits, ⟨hrest, rfl⟩, rfl⟩

theorem groupAlone_unambiguous :
    Unambiguous context (groupAlone isInput).tail (groupAlone isInput).parts := by
  refine ⟨fun c s cs hc h => ?_, trivial⟩
  obtain ⟨d, s', he, hfold, -⟩ := sameFold_cons.mp h.1
  cases he
  obtain rfl : c = '.' := eq_of_fold_eq (by decide) hfold
  cases hc

theorem groupAlone_tells {letters : Alphabet} (hne : digits ≠ []) :
    Pattern.Tells letters (Pattern.stated (groupAlone isInput).fields [digits]) path r ↔
      r.group < bound32 ∧ ofDigits digits = r.group ∧ r = ⟨path, "", r.group, 1⟩ := by
  have hstated : Pattern.stated (groupAlone isInput).fields [digits] = [(.groupNumber, digits)] :=
    List.filter_eq_self.mpr (by simpa [groupAlone, Template.fields] using hne)
  rw [hstated]
  constructor
  · intro h
    obtain ⟨hvalue, hbound⟩ := h.group digits List.mem_cons_self
    obtain ⟨path', taskName, group, test⟩ := r
    obtain rfl : path' = path := h.path
    obtain rfl : test = 1 := h.noTest (by simp)
    obtain rfl : taskName = "" := h.noName (by simp)
    exact ⟨hbound, hvalue, rfl⟩
  · rintro ⟨hbound, hvalue, he⟩
    rw [he]
    exact ⟨rfl, ⟨digits, List.mem_cons_self⟩, by simp [hbound, hvalue], by simp, by simp, fun _ => rfl, by simp,
      fun _ => rfl⟩

theorem compile_groupTemplate (context : Context) (isInput : Bool) :
    Pattern.compile context (groupTemplate isInput) =
      Pattern.compile ⟨.fixed "", context.letters⟩ (groupTemplate isInput) :=
  Pattern.compile_congr (ofString_groupTemplate isInput) rfl rfl

theorem exists_compile_groupTemplate (context : Context) (isInput : Bool) :
    ∃ p, Pattern.compile context (groupTemplate isInput) = .ok p := by
  rw [compile_groupTemplate]
  refine Pattern.exists_compile trivial (ofString_groupTemplate isInput) fun part hpart hfield => ?_
  rw [List.mem_singleton.mp hpart] at hfield
  cases hfield

theorem groupTemplate_match? (hp : Pattern.compile context (groupTemplate isInput) = .ok p) :
    p.match? path = some r ↔ r.group < bound32 ∧ ReadsAs isInput r.group path.toList ∧ r = ⟨path, "", r.group, 1⟩ := by
  rw [compile_groupTemplate] at hp
  have hname : (Context.mk (.fixed "") context.letters).name.OneClass := trivial
  rw [Pattern.match?_eq_some_iff hname (ofString_groupTemplate isInput) hp]
  constructor
  · rintro ⟨cs, hgreatest, htells⟩
    obtain ⟨digits, rest, hpath, hdigits, hrest, rfl⟩ := groupAlone_splits.mp hgreatest.1
    obtain ⟨hbound, hvalue, he⟩ := (groupAlone_tells hdigits.1).mp htells
    exact ⟨hbound, ⟨digits, rest, hpath, ⟨hdigits.1, hdigits.2, hvalue⟩, hrest⟩, he⟩
  · rintro ⟨hbound, ⟨digits, rest, hpath, ⟨hne, hdigits, hvalue⟩, hrest⟩, he⟩
    refine ⟨[digits], greatest_of_unambiguous groupAlone_unambiguous ?_,
      (groupAlone_tells hne).mpr ⟨hbound, hvalue, he⟩⟩
    exact groupAlone_splits.mpr ⟨digits, rest, hpath, ⟨hne, hdigits⟩, hrest, rfl⟩

theorem groupTemplate_match?_none {context' : Context} {p' : Pattern}
    (hp : Pattern.compile context (groupTemplate isInput) = .ok p)
    (hp' : Pattern.compile context' (groupTemplate isInput) = .ok p') (h : p.match? path = none) :
    p'.match? path = none := by
  refine Option.eq_none_iff_forall_ne_some.mpr fun r hr => ?_
  rw [(groupTemplate_match? hp).mpr ((groupTemplate_match? hp').mp hr)] at h
  cases h

-- ---------------------------------------------------------------------------
-- Numbered files
-- ---------------------------------------------------------------------------

def numberedRecord (isInput : Bool) (index : Nat) : Record := ⟨numbered index (extension isInput), "", index + 1, 1⟩

def numberedRecords (isInput : Bool) (count : Nat) : List Record := (List.range count).map (numberedRecord isInput)

theorem takeWhile_of_sameFold {digits rest : List Char} (hdigits : AllDigits digits)
    (hrest : SameFold rest ('.' :: s)) : (digits ++ rest).takeWhile Char.isDigit = digits := by
  obtain ⟨d, rest, rfl, hfold, -⟩ := sameFold_cons.mp hrest
  obtain rfl : d = '.' := eq_of_fold_eq (by decide) hfold
  rw [List.takeWhile_append_of_pos hdigits]
  exact List.append_nil _

/-- A numbered file reads as what it is and as nothing else. -/
theorem readsAs_numbered :
    ReadsAs isInput n (numbered index (extension other)).toList ↔ n = index + 1 ∧ other = isInput := by
  rw [toList_numbered]
  have hself := takeWhile_of_sameFold (isNumeral_toDigits (index + 1)).2.1
    (show SameFold ('.' :: (extension other).toList) _ from rfl)
  constructor
  · rintro ⟨digits, rest, htext, ⟨-, hdigits, rfl⟩, hrest⟩
    rw [htext, takeWhile_of_sameFold hdigits hrest] at hself
    subst hself
    obtain rfl := List.append_cancel_left htext
    refine ⟨(isNumeral_toDigits (index + 1)).2.2, ?_⟩
    have hlength := hrest.length_eq
    cases isInput <;> cases other <;> first | rfl | cases hlength
  · rintro ⟨rfl, rfl⟩
    exact ⟨_, _, rfl, isNumeral_toDigits _, rfl⟩

theorem numbered_match? (hp : Pattern.compile context (groupTemplate isInput) = .ok p) :
    p.match? (numbered index (extension other)) = some r ↔
      index + 1 < bound32 ∧ other = isInput ∧ r = numberedRecord isInput index := by
  rw [groupTemplate_match? hp, readsAs_numbered]
  constructor
  · rintro ⟨hbound, ⟨hgroup, rfl⟩, he⟩
    rw [hgroup] at hbound he
    exact ⟨hbound, rfl, he⟩
  · rintro ⟨hbound, rfl, rfl⟩
    exact ⟨hbound, ⟨rfl, rfl⟩, rfl⟩

theorem numberedRecord_injective : Function.Injective (numberedRecord isInput) := by
  intro i j h
  exact Nat.succ.inj (congrArg Record.group h)

theorem numberedRecords_nodup (isInput : Bool) (count : Nat) : (numberedRecords isInput count).Nodup :=
  List.nodup_range.map numberedRecord_injective

theorem mem_numberedRecords :
    r ∈ numberedRecords isInput count ↔ ∃ index < count, numberedRecord isInput index = r := by
  simp [numberedRecords]

theorem map_key_numberedRecords (isInput : Bool) (count : Nat) :
    (numberedRecords isInput count).map Record.key = (List.range count).map fun index => (index + 1, 1) := by
  rw [numberedRecords, List.map_map]
  rfl

theorem numberedRecords_ordered (isInput : Bool) (count : Nat) :
    (numberedRecords isInput count).Pairwise fun a b => a.notAfter b := by
  refine List.pairwise_map.mpr (List.pairwise_lt_range.imp fun {i j} hlt => ?_)
  exact Record.notAfter_iff.mpr (.inl (Nat.succ_lt_succ hlt))

theorem sort_eq_numberedRecords {records : List Record} (h : records.Perm (numberedRecords isInput count)) :
    Record.sort records = numberedRecords isInput count := by
  refine ((Record.sort_perm records).trans h).eq_of_pairwise (fun a b ha hb hab hba => ?_) (Record.sort_ordered records)
    (numberedRecords_ordered isInput count)
  obtain ⟨i, -, rfl⟩ := mem_numberedRecords.mp (h.mem_iff.mp (Record.mem_sort.mp ha))
  obtain ⟨j, -, rfl⟩ := mem_numberedRecords.mp hb
  have hkey : i + 1 = j + 1 := congrArg Prod.fst (Record.key_eq_of_notAfter hab hba)
  rw [Nat.succ.inj hkey]

-- ---------------------------------------------------------------------------
-- Listings
-- ---------------------------------------------------------------------------

def side (m : TaskMatch) (isInput : Bool) : List Record := if isInput then m.inputs else m.outputs

@[simp] theorem side_true (m : TaskMatch) : side m true = m.inputs := rfl

@[simp] theorem side_false (m : TaskMatch) : side m false = m.outputs := rfl

/-- The numbered files of a task and its marks file, each listed once. -/
structure Lists (marksFile : String) (m : TaskMatch) (files : List String) : Prop where
  once : files.Nodup
  present : ∀ isInput index, index < (side m isInput).length → numbered index (extension isInput) ∈ files
  only : ∀ path ∈ files, path = marksFile ∨
    ∃ isInput index, index < (side m isInput).length ∧ path = numbered index (extension isInput)

variable {marksFile : String}

theorem Lists.listedOnce (h : Lists marksFile m files) (p : Pattern) : ListedOnce p files :=
  fun path _ => List.nodup_iff_count_le_one.mp h.once path

theorem Lists.records_perm (h : Lists marksFile m files) (hp : Pattern.compile context (groupTemplate isInput) = .ok p)
    (hmarks : p.match? marksFile = none) (hbound : (side m isInput).length < bound32) :
    (p.records files).Perm (numberedRecords isInput (side m isInput).length) := by
  refine (List.perm_ext_iff_of_nodup (List.Nodup.of_map _ (nodup_records_iff.mpr (h.listedOnce p)))
    (numberedRecords_nodup isInput _)).mpr fun r => ?_
  rw [Pattern.records, List.mem_filterMap, mem_numberedRecords]
  constructor
  · rintro ⟨path, hpath, hmatch⟩
    rcases h.only path hpath with rfl | ⟨other, index, hindex, rfl⟩
    · rw [hmarks] at hmatch
      cases hmatch
    · obtain ⟨-, rfl, rfl⟩ := (numbered_match? hp).mp hmatch
      exact ⟨index, hindex, rfl⟩
  · rintro ⟨index, hindex, rfl⟩
    exact ⟨_, h.present isInput index hindex, (numbered_match? hp).mpr ⟨by omega, rfl, rfl⟩⟩

def renumbered (m : TaskMatch) : TaskMatch :=
  ⟨m.task, numberedRecords true m.inputs.length, numberedRecords false m.outputs.length⟩

@[simp] theorem length_inputs_renumbered (m : TaskMatch) : (renumbered m).inputs.length = m.inputs.length := by
  simp [renumbered, numberedRecords]

theorem getElem?_side_renumbered {index : Nat} (h : index < (side m isInput).length) :
    (side (renumbered m) isInput)[index]? = some (numberedRecord isInput index) := by
  have hside : side (renumbered m) isInput = numberedRecords isInput (side m isInput).length := by
    cases isInput <;> rfl
  rw [hside, numberedRecords, List.getElem?_map, List.getElem?_range h]
  rfl

/-- What the tests of a task must be like to be renumbered as they are. -/
structure Renumberable (infilesOnly : Bool) (m : TaskMatch) : Prop where
  nonempty : m.inputs ≠ []
  bound : m.inputs.length < bound32
  paired : infilesOnly = false → m.outputs.length = m.inputs.length
  alone : infilesOnly = true → m.outputs = []

theorem Renumberable.of_lt_side {infilesOnly : Bool} (h : Renumberable infilesOnly m) {index : Nat}
    (hindex : index < (side m isInput).length) : index < m.inputs.length ∧ (isInput = false → infilesOnly = false) := by
  cases isInput with
  | true => exact ⟨hindex, nofun⟩
  | false =>
    cases infilesOnly with
    | true =>
      rw [side_false, h.alone rfl] at hindex
      cases hindex
    | false => exact ⟨h.paired rfl ▸ hindex, fun _ => rfl⟩

theorem oneName_of_perm {records : List Record} (h : records.Perm (numberedRecords isInput count)) :
    ∀ a ∈ records, a.taskName = "" := by
  intro a ha
  obtain ⟨index, -, rfl⟩ := mem_numberedRecords.mp (h.mem_iff.mp ha)
  rfl

theorem vacant_of_free {directory : String} (isInput : Bool) (count : Nat)
    (hfree : ∀ index, t.exists? (Path.join directory (numbered index (extension isInput))) = false) :
    Vacant t directory (extension isInput) count := by
  intro k hk _ hexists
  obtain ⟨index, rfl⟩ := Nat.exists_eq_add_of_le' hk
  have hnone := hfree index
  rw [numbered, hexists] at hnone
  cases hnone

-- ---------------------------------------------------------------------------
-- Detection
-- ---------------------------------------------------------------------------

structure Readers (context : Context) (marksFile : String) (input output : Pattern) : Prop where
  compiledInput : Pattern.compile context (groupTemplate true) = .ok input
  compiledOutput : Pattern.compile context (groupTemplate false) = .ok output
  marksInput : input.match? marksFile = none
  marksOutput : output.match? marksFile = none

section

variable {infilesOnly : Bool} (hread : Readers context marksFile input output)

include hread

theorem Lists.apart (h : Lists marksFile m files) :
    ∀ path ∈ files, ¬((input.match? path).isSome ∧ (output.match? path).isSome) := by
  rintro path hpath ⟨hin, hout⟩
  obtain ⟨r, hr⟩ := Option.isSome_iff_exists.mp hin
  obtain ⟨r', hr'⟩ := Option.isSome_iff_exists.mp hout
  rcases h.only path hpath with rfl | ⟨other, index, -, rfl⟩
  · rw [hread.marksInput] at hr
    cases hr
  · obtain ⟨-, rfl, -⟩ := (numbered_match? hread.compiledInput).mp hr
    obtain ⟨-, hother, -⟩ := (numbered_match? hread.compiledOutput).mp hr'
    cases hother

theorem Lists.inputs_perm (h : Lists marksFile m files) (hm : Renumberable infilesOnly m) :
    (input.records files).Perm (numberedRecords true m.inputs.length) :=
  h.records_perm hread.compiledInput hread.marksInput hm.bound

theorem Lists.outputs_perm (h : Lists marksFile m files) (hm : Renumberable infilesOnly m)
    (hboth : infilesOnly = false) : (output.records files).Perm (numberedRecords false m.outputs.length) := by
  refine h.records_perm hread.compiledOutput hread.marksOutput ?_
  rw [side_false, hm.paired hboth]
  exact hm.bound

theorem Lists.fits (h : Lists marksFile m task.files) (hm : Renumberable options.infilesOnly m)
    (hfree : ∀ isInput index,
      t.exists? (Path.join (Task.directory options.workDir task.name) (numbered index (extension isInput))) = false) :
    Fits t options input output task := by
  have hins := h.inputs_perm hread hm
  have honeName := oneName_of_perm hins
  refine ⟨?hasInput, h.listedOnce input, fun a ha b hb => (honeName a ha).trans (honeName b hb).symm,
    vacant_of_free true _ (hfree true), fun hboth => ?paired⟩
  case hasInput =>
    refine records_ne_nil_iff.mp fun hnil => hm.nonempty ?_
    rw [hnil, List.nil_perm] at hins
    exact List.length_eq_zero_iff.mp (by simpa [numberedRecords] using congrArg List.length hins)
  case paired =>
    have houts := h.outputs_perm hread hm hboth
    have honeName' := oneName_of_perm houts
    refine ⟨h.apart hread, h.listedOnce output, fun a ha b hb => (honeName' a ha).trans (honeName' b hb).symm,
      fun a ha b _ hne => absurd (honeName a ha) hne, ?_, vacant_of_free false _ (hfree false)⟩
    refine (hins.map _).trans (.trans (.of_eq ?_) (houts.map _).symm)
    rw [map_key_numberedRecords, map_key_numberedRecords, hm.paired hboth]

theorem Lists.holds (h : Lists marksFile m task.files) (hname : m.task = task.name)
    (hm : Renumberable options.infilesOnly m) : Holds options input output task (renumbered m) := by
  rw [holds_iff, sort_eq_numberedRecords (h.inputs_perm hread hm), outputRecords, ← hname, renumbered]
  split
  · rename_i hinfiles
    rw [hm.alone hinfiles, Record.sort_of_ordered .nil]
    rfl
  · rename_i hboth
    rw [sort_eq_numberedRecords (h.outputs_perm hread hm (by simpa using hboth))]

end

/-- Tasks that hold numbered files are accepted with the tests in their order. -/
theorem evaluate_numbered {tasks : List Task} {ms : List TaskMatch} {definition : Definition}
    (hin : definition.input = groupTemplate true) (hout : definition.output = groupTemplate false)
    (hmarks : ∀ isInput p, Pattern.compile context (groupTemplate isInput) = .ok p → p.match? marksFile = none)
    (h : List.Forall₂ (fun task m =>
      Lists marksFile m task.files ∧ m.task = task.name ∧ Renumberable options.infilesOnly m) tasks ms)
    (hfree : ∀ task ∈ tasks, ∀ isInput index,
      t.exists? (Path.join (Task.directory options.workDir task.name) (numbered index (extension isInput))) = false) :
    evaluate t context options definition tasks = .ok ⟨definition.name, ms.map renumbered⟩ := by
  obtain ⟨input, hinput⟩ := exists_compile_groupTemplate context true
  obtain ⟨output, houtput⟩ := exists_compile_groupTemplate context false
  have hread : Readers context marksFile input output :=
    ⟨hinput, houtput, hmarks true input hinput, hmarks false output houtput⟩
  refine evaluate_eq_ok_iff.mpr ⟨input, output, hin ▸ hinput, hout ▸ houtput, fun task htask => ?_, rfl, ?_⟩
  · obtain ⟨m, -, hlists, -, hm⟩ := exists_of_mem_right h.flip htask
    exact hlists.fits hread hm (hfree task htask)
  · refine List.forall₂_map_right_iff.mpr (h.imp fun task m hm => ?_)
    obtain ⟨hlists, hname, hrenumber⟩ := hm
    exact hlists.holds hread hname hrenumber

end Detection

end ContestTests
