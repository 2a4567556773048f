import ContestTests.Conversion
import ContestTests.Proofs.Tree.Changes

/-!
# The script of a conversion

A conversion has a script of deeds: for each task its transfers, and then its marks file. Performing
deeds is said about the files alone. No two deeds of a script fill the same key.
-/

namespace ContestTests

def Entry.content? : Entry → Option ByteArray
  | .file content => some content
  | .directory => none

def Tree.fileAt (t : Tree) (key : Key) : Option ByteArray := (t.find? key).bind Entry.content?

theorem Tree.fileAt_eq_some_iff {t : Tree} {key : Key} {content : ByteArray} :
    t.fileAt key = some content ↔ t.find? key = some (.file content) := by
  rw [Tree.fileAt, Option.bind_eq_some_iff]
  constructor
  · rintro ⟨entry, hfind, hcontent⟩
    cases entry with
    | directory => cases hcontent
    | file found =>
      cases hcontent
      exact hfind
  · exact fun hfind => ⟨_, hfind, rfl⟩

namespace Conversion

open ContestTests.Path ContestTests.Text

inductive Deed where
  | transfer (tr : Transfer)
  | marks (m : TaskMatch)

def Deed.transfer? : Deed → Option Transfer
  | .transfer tr => some tr
  | .marks _ => none

def transfersOf (deeds : List Deed) : List Transfer := deeds.filterMap Deed.transfer?

def Deed.marks? : Deed → Option TaskMatch
  | .transfer _ => none
  | .marks m => some m

def markedBy (deeds : List Deed) : List TaskMatch := deeds.filterMap Deed.marks?

def taskScript (o : Options) (m : TaskMatch) : List Deed := (o.transfers m).map .transfer ++ [.marks m]

/-- The deeds of a conversion in their order. -/
def script (o : Options) (tasks : List TaskMatch) : List Deed := tasks.flatMap (taskScript o)

def testPlan (o : Options) (m : TaskMatch) (index : Nat) (input : Record) : List Transfer :=
  o.transfer m.task true index input ::
    if o.infilesOnly then [] else m.outputs[index]?.toList.map (o.transfer m.task false index)

/-- The transfers of a conversion in their order, task by task and test by test. -/
def plan (o : Options) (c : Candidate) : List Transfer :=
  c.tasks.flatMap fun m => m.inputs.zipIdx.flatMap fun test => testPlan o m test.2 test.1

variable {t : Tree} {o : Options} {tasks : List TaskMatch} {m : TaskMatch} {tr : Transfer} {deeds more : List Deed}
  {files files' files'' : Key → Option ByteArray} {key : Key} {content : ByteArray}

def Deed.target (o : Options) : Deed → String
  | .transfer tr => tr.target
  | .marks m => o.marksPath m

theorem Deed.target_transfer (o : Options) (tr : Transfer) : (Deed.transfer tr).target o = tr.target := rfl

theorem Deed.target_marks (o : Options) (m : TaskMatch) : (Deed.marks m).target o = o.marksPath m := rfl

def marksContent (m : TaskMatch) : ByteArray := (Record.renderMarks (Record.marks m.inputs)).toUTF8

def transferred (mode : TransferMode) (source target : Key) (content : ByteArray)
    (files : Key → Option ByteArray) : Key → Option ByteArray :=
  fun k => if k = target then some content else if mode = .move ∧ k = source then none else files k

def filled (target : Key) (content : ByteArray) (files : Key → Option ByteArray) : Key → Option ByteArray :=
  fun k => if k = target then some content else files k

/-- Deeds that are performed one after the other; each finds its source and no file at its target. -/
def Performed (t : Tree) (o : Options) :
    List Deed → (Key → Option ByteArray) → (Key → Option ByteArray) → Prop
  | [], files, files' => files' = files
  | .transfer tr :: deeds, files, files' => ∃ content, files (t.keyOf tr.source) = some content ∧
      files (t.keyOf tr.target) = none ∧
      Performed t o deeds (transferred o.mode (t.keyOf tr.source) (t.keyOf tr.target) content files) files'
  | .marks m :: deeds, files, files' => files (t.keyOf (o.marksPath m)) = none ∧
      Performed t o deeds (filled (t.keyOf (o.marksPath m)) (marksContent m) files) files'

theorem Performed.append (h : Performed t o deeds files files') (h' : Performed t o more files' files'') :
    Performed t o (deeds ++ more) files files'' := by
  induction deeds generalizing files with
  | nil =>
    cases h
    exact h'
  | cons deed deeds ih =>
    cases deed with
    | transfer tr =>
      obtain ⟨content, hsource, htarget, hrest⟩ := h
      exact ⟨content, hsource, htarget, ih hrest⟩
    | marks m =>
      obtain ⟨htarget, hrest⟩ := h
      exact ⟨htarget, ih hrest⟩

theorem Performed.split (h : Performed t o (deeds ++ more) files files'') :
    ∃ files', Performed t o deeds files files' ∧ Performed t o more files' files'' := by
  induction deeds generalizing files with
  | nil => exact ⟨files, rfl, h⟩
  | cons deed deeds ih =>
    cases deed with
    | transfer tr =>
      obtain ⟨content, hsource, htarget, hrest⟩ := h
      obtain ⟨files', hfirst, hmore⟩ := ih hrest
      exact ⟨files', ⟨content, hsource, htarget, hfirst⟩, hmore⟩
    | marks m =>
      obtain ⟨htarget, hrest⟩ := h
      obtain ⟨files', hfirst, hmore⟩ := ih hrest
      exact ⟨files', ⟨htarget, hfirst⟩, hmore⟩

theorem Performed.eq_none (h : Performed t o deeds files files') (hnone : files key = none)
    (hkey : ∀ deed ∈ deeds, t.keyOf (deed.target o) ≠ key) : files' key = none := by
  induction deeds generalizing files with
  | nil => rwa [h]
  | cons deed deeds ih =>
    obtain ⟨hdeed, hdeeds⟩ := List.forall_mem_cons.mp hkey
    cases deed with
    | transfer tr =>
      obtain ⟨content, -, -, hrest⟩ := h
      have hne : key ≠ t.keyOf tr.target := Ne.symm hdeed
      refine ih hrest ?_ hdeeds
      rw [transferred, if_neg hne, hnone, ite_self]
    | marks m =>
      obtain ⟨-, hrest⟩ := h
      have hne : key ≠ t.keyOf (o.marksPath m) := Ne.symm hdeed
      refine ih hrest ?_ hdeeds
      rw [filled, if_neg hne, hnone]

theorem Performed.stays (h : Performed t o deeds files files') (htarget : ∀ deed ∈ deeds, t.keyOf (deed.target o) ≠ key)
    (hsource : o.mode = .move → ∀ tr ∈ transfersOf deeds, t.keyOf tr.source ≠ key) : files' key = files key := by
  induction deeds generalizing files with
  | nil => rw [h]
  | cons deed deeds ih =>
    obtain ⟨hdeed, hdeeds⟩ := List.forall_mem_cons.mp htarget
    cases deed with
    | transfer tr =>
      obtain ⟨content, -, -, hrest⟩ := h
      have hne : key ≠ t.keyOf tr.target := Ne.symm hdeed
      have hkept : ¬ (o.mode = .move ∧ key = t.keyOf tr.source) := by
        rintro ⟨hmove, rfl⟩
        exact hsource hmove tr List.mem_cons_self rfl
      rw [ih hrest hdeeds fun hmove tr htr => hsource hmove tr (List.mem_cons_of_mem _ htr), transferred, if_neg hne,
        if_neg hkept]
    | marks m =>
      obtain ⟨-, hrest⟩ := h
      have hne : key ≠ t.keyOf (o.marksPath m) := Ne.symm hdeed
      rw [ih hrest hdeeds hsource, filled, if_neg hne]

theorem Performed.keeps_content (h : Performed t o deeds files files') (hfile : files key = some content) :
    ∃ key', files' key' = some content := by
  induction deeds generalizing files key with
  | nil =>
    cases h
    exact ⟨key, hfile⟩
  | cons deed deeds ih =>
    cases deed with
    | transfer tr =>
      obtain ⟨moved, hsource, htarget, hrest⟩ := h
      by_cases hkey : key = t.keyOf tr.source
      · subst hkey
        rw [hsource] at hfile
        cases hfile
        have hmoved : transferred o.mode (t.keyOf tr.source) (t.keyOf tr.target) content files (t.keyOf tr.target) =
            some content := if_pos rfl
        exact ih hrest hmoved
      · have hne : key ≠ t.keyOf tr.target := by
          rintro rfl
          rw [htarget] at hfile
          cases hfile
        have hkept : transferred o.mode (t.keyOf tr.source) (t.keyOf tr.target) moved files key = some content := by
          rw [transferred, if_neg hne, if_neg (by simp [hkey]), hfile]
        exact ih hrest hkept
    | marks m =>
      obtain ⟨htarget, hrest⟩ := h
      have hne : key ≠ t.keyOf (o.marksPath m) := by
        rintro rfl
        rw [htarget] at hfile
        cases hfile
      have hkept : filled (t.keyOf (o.marksPath m)) (marksContent m) files key = some content := by
        rw [filled, if_neg hne, hfile]
      exact ih hrest hkept

theorem transfersOf_append : transfersOf (deeds ++ more) = transfersOf deeds ++ transfersOf more :=
  List.filterMap_append

theorem mem_transfersOf : tr ∈ transfersOf deeds ↔ .transfer tr ∈ deeds := by
  rw [transfersOf, List.mem_filterMap]
  constructor
  · rintro ⟨deed, hdeed, he⟩
    cases deed with
    | transfer found =>
      cases he
      exact hdeed
    | marks m => cases he
  · exact fun h => ⟨_, h, rfl⟩

theorem transfersOf_script (o : Options) (tasks : List TaskMatch) :
    transfersOf (script o tasks) = tasks.flatMap o.transfers := by
  induction tasks with
  | nil => rfl
  | cons m tasks ih =>
    have htask : transfersOf (taskScript o m) = o.transfers m := by
      simp [transfersOf, taskScript, List.filterMap_map, Function.comp_def, Deed.transfer?]
    rw [script, List.flatMap_cons, transfersOf_append, htask, List.flatMap_cons]
    exact congrArg _ ih

theorem markedBy_append : markedBy (deeds ++ more) = markedBy deeds ++ markedBy more := List.filterMap_append

theorem markedBy_script (o : Options) (tasks : List TaskMatch) : markedBy (script o tasks) = tasks := by
  induction tasks with
  | nil => rfl
  | cons m tasks ih =>
    have htask : markedBy (taskScript o m) = [m] := by
      simp [markedBy, taskScript, List.filterMap_map, Function.comp_def, Deed.marks?]
    rw [script, List.flatMap_cons, markedBy_append, htask]
    exact congrArg _ ih

theorem transfersFrom_drop (o : Options) (m : TaskMatch) (index : Nat) (inputs : List Record) :
    o.transfersFrom m.task index inputs (m.outputs.drop index) =
      (inputs.zipIdx index).flatMap fun test => testPlan o m test.2 test.1 := by
  induction inputs generalizing index with
  | nil => rfl
  | cons input inputs ih =>
    rw [List.zipIdx_cons, List.flatMap_cons, ← ih, testPlan]
    cases hdrop : m.outputs.drop index with
    | nil =>
      have hlength := List.drop_eq_nil_iff.mp hdrop
      rw [List.drop_eq_nil_of_le (Nat.le_succ_of_le hlength), List.getElem?_eq_none hlength, Options.transfersFrom]
      simp
    | cons output outputs =>
      have houtput : m.outputs[index]? = some output := by
        rw [← List.head?_drop, hdrop]
        rfl
      have houtputs : m.outputs.drop (index + 1) = outputs := by rw [← List.tail_drop, hdrop, List.tail_cons]
      rw [Options.transfersFrom, houtput, houtputs]
      split <;> rfl

theorem plan_eq (o : Options) (c : Candidate) : plan o c = c.tasks.flatMap o.transfers := by
  refine List.flatMap_congr fun m _ => ?_
  rw [Options.transfers, ← transfersFrom_drop, List.drop_zero]

theorem mem_plan {c : Candidate} : tr ∈ plan o c ↔ ∃ m ∈ c.tasks, tr ∈ o.transfers m := by
  rw [plan_eq, List.mem_flatMap]

-- ---------------------------------------------------------------------------
-- Names of numbered files
-- ---------------------------------------------------------------------------

def extension (isInput : Bool) : String := if isInput then "in" else "out"

theorem toList_numbered (index : Nat) (isInput : Bool) :
    (Detection.numbered index (extension isInput)).toList =
      Nat.toDigits 10 (index + 1) ++ '.' :: (extension isInput).toList := by
  simp [Detection.numbered, decimal, String.toList_append, Nat.toList_repr]

theorem isDigit_of_mem_toDigits {c : Char} {n : Nat} (h : c ∈ Nat.toDigits 10 n) : c.isDigit :=
  Nat.isDigit_of_mem_toDigits (by decide) (by decide) h

theorem numbered_injective {i j : Nat} {a b : Bool}
    (h : Detection.numbered i (extension a) = Detection.numbered j (extension b)) : i = j ∧ a = b := by
  have htext := congrArg String.toList h
  rw [toList_numbered, toList_numbered] at htext
  have hdigits (n : Nat) (s : List Char) :
      (Nat.toDigits 10 n ++ '.' :: s).takeWhile Char.isDigit = Nat.toDigits 10 n := by
    rw [List.takeWhile_append_of_pos fun c hc => isDigit_of_mem_toDigits hc]
    exact List.append_nil _
  have hsame : Nat.toDigits 10 (i + 1) = Nat.toDigits 10 (j + 1) := by
    rw [← hdigits (i + 1) (extension a).toList, htext, hdigits]
  have hvalue := congrArg (Nat.ofDigitChars 10 · 0) hsame
  simp only [Nat.ofDigitChars_ten_toDigits] at hvalue
  rw [hsame] at htext
  have hext := List.append_cancel_left htext
  refine ⟨by omega, ?_⟩
  cases a <;> cases b <;> simp_all [extension]

theorem isName_numbered (index : Nat) (isInput : Bool) : IsName (Detection.numbered index (extension isInput)) := by
  have htext := toList_numbered index isInput
  have hlen : 3 ≤ (Detection.numbered index (extension isInput)).toList.length := by
    rw [htext]
    cases isInput <;> simp [extension]
  refine ⟨?_, ?_, ?_, ?_⟩
  · intro h
    simp [h] at hlen
  · rw [htext]
    intro hmem
    rcases List.mem_append.mp hmem with hmem | hmem
    · have hdigit := isDigit_of_mem_toDigits hmem
      revert hdigit
      decide
    · revert hmem
      cases isInput <;> decide
  · intro h
    simp [h] at hlen
  · intro h
    simp [h] at hlen

theorem isNumbered_numbered (index : Nat) (isInput : Bool) :
    IsNumbered (Detection.numbered index (extension isInput)) := by
  refine ⟨Nat.toDigits 10 (index + 1), Nat.toDigits_ne_nil, fun c hc => isDigit_of_mem_toDigits hc, ?_⟩
  rw [toList_numbered]
  cases isInput
  · exact .inr rfl
  · exact .inl rfl

-- ---------------------------------------------------------------------------
-- Targets
-- ---------------------------------------------------------------------------

variable {task : String} {index : Nat} {inputs outputs : List Record} {record : Record}

theorem mem_transfersFrom : tr ∈ o.transfersFrom task index inputs outputs ↔
    (∃ j record, inputs[j]? = some record ∧ tr = o.transfer task true (index + j) record) ∨
      o.infilesOnly = false ∧ ∃ j record, j < inputs.length ∧ outputs[j]? = some record ∧
        tr = o.transfer task false (index + j) record := by
  induction inputs generalizing index outputs with
  | nil => simp [Options.transfersFrom]
  | cons input inputs ih =>
    have hshift (j : Nat) : index + 1 + j = index + (j + 1) := by omega
    have hins : (∃ j record, (input :: inputs)[j]? = some record ∧ tr = o.transfer task true (index + j) record) ↔
        tr = o.transfer task true index input ∨
          ∃ j record, inputs[j]? = some record ∧ tr = o.transfer task true (index + 1 + j) record := by
      rw [← Nat.or_exists_add_one]
      simp [hshift]
    cases outputs with
    | nil =>
      rw [hins, Options.transfersFrom, List.mem_cons, ih]
      simp
    | cons output outputs =>
      have houts : (∃ j record, j < (input :: inputs).length ∧ (output :: outputs)[j]? = some record ∧
            tr = o.transfer task false (index + j) record) ↔
          tr = o.transfer task false index output ∨
            ∃ j record, j < inputs.length ∧ outputs[j]? = some record ∧
              tr = o.transfer task false (index + 1 + j) record := by
        rw [← Nat.or_exists_add_one]
        simp [hshift]
      rw [hins, houts, Options.transfersFrom]
      cases hinfiles : o.infilesOnly with
      | true => simp [ih, hinfiles]
      | false =>
        simp only [Bool.false_eq_true, if_false, List.mem_cons, ih, hinfiles, true_and, or_assoc]
        exact or_congr_right or_left_comm

/-- The marks file has the name of no numbered file of the task. -/
def MarksFresh (o : Options) (m : TaskMatch) : Prop :=
  ∀ index isInput, index < m.inputs.length → o.marksFile ≠ Detection.numbered index (extension isInput)

/-- Tasks with names that scanning gives, each once, and a marks file in nobody's place. -/
structure Orderly (o : Options) (tasks : List TaskMatch) : Prop where
  ways : ∀ m ∈ tasks, ∃ way, IsWay way ∧ m.task = Task.wayText way
  distinct : (tasks.map TaskMatch.task).Nodup
  marksName : IsName o.marksFile
  marksNotNumbered : ¬ IsNumbered o.marksFile

/-- The same, where the marks file may have the name of a numbered file that is not made. -/
structure Arranged (o : Options) (tasks : List TaskMatch) : Prop where
  ways : ∀ m ∈ tasks, ∃ way, IsWay way ∧ m.task = Task.wayText way
  distinct : (tasks.map TaskMatch.task).Nodup
  marksName : IsName o.marksFile
  marksFresh : ∀ m ∈ tasks, MarksFresh o m

theorem marksFresh_of_not_numbered (h : ¬ IsNumbered o.marksFile) (m : TaskMatch) : MarksFresh o m :=
  fun index isInput _ he => h (he ▸ isNumbered_numbered index isInput)

theorem Orderly.arranged (h : Orderly o tasks) : Arranged o tasks :=
  ⟨h.ways, h.distinct, h.marksName, fun m _ => marksFresh_of_not_numbered h.marksNotNumbered m⟩

theorem Arranged.tail (h : Arranged o (m :: tasks)) : Arranged o tasks :=
  ⟨fun m' hm' => h.ways m' (List.mem_cons_of_mem _ hm'), (List.nodup_cons.mp h.distinct).2, h.marksName,
    (List.forall_mem_cons.mp h.marksFresh).2⟩

theorem transfer_target (o : Options) (task : String) (isInput : Bool) (index : Nat) (record : Record) :
    (o.transfer task isInput index record).target =
      Path.join (o.targetDir task) (Detection.numbered index (extension isInput)) := rfl

theorem keyOf_target (t : Tree) (o : Options) (task : String) (isInput : Bool) (index : Nat) (record : Record) :
    t.keyOf (o.transfer task isInput index record).target =
      t.keyOf (o.targetDir task) ++ [Detection.numbered index (extension isInput)] :=
  Tree.keyOf_join_name t _ (isName_numbered index isInput)

theorem keyOf_marksPath (t : Tree) (h : IsName o.marksFile) (m : TaskMatch) :
    t.keyOf (o.marksPath m) = t.keyOf (o.targetDir m.task) ++ [o.marksFile] :=
  Tree.keyOf_join_name t _ h

theorem target_injective {i j : Nat} {a b : Bool} {r s : Record}
    (h : t.keyOf (o.transfer task a i r).target = t.keyOf (o.transfer task b j s).target) : i = j ∧ a = b := by
  rw [keyOf_target, keyOf_target] at h
  exact numbered_injective (List.singleton_inj.mp (List.append_cancel_left h))

theorem transfersFrom_targets_nodup (t : Tree) (o : Options) (task : String) (index : Nat)
    (inputs outputs : List Record) :
    ((o.transfersFrom task index inputs outputs).map fun tr => t.keyOf tr.target).Nodup := by
  -- What comes later has a greater number.
  have hfresh (b : Bool) (i : Nat) (r : Record) (ins outs : List Record) :
      t.keyOf (o.transfer task b i r).target ∉
        (o.transfersFrom task (i + 1) ins outs).map fun tr => t.keyOf tr.target := by
    intro hmem
    obtain ⟨tr, htr, he⟩ := List.mem_map.mp hmem
    rcases mem_transfersFrom.mp htr with ⟨j, _, -, rfl⟩ | ⟨-, j, _, -, -, rfl⟩
    · have hnumber := (target_injective he).1
      omega
    · have hnumber := (target_injective he).1
      omega
  induction inputs generalizing index outputs with
  | nil => exact List.nodup_nil
  | cons input inputs ih =>
    have hone (outs : List Record) :
        (((o.transfer task true index input) :: o.transfersFrom task (index + 1) inputs outs).map fun tr =>
          t.keyOf tr.target).Nodup :=
      List.nodup_cons.mpr ⟨hfresh _ _ _ _ _, ih _ _⟩
    cases outputs with
    | nil => exact hone []
    | cons output outputs =>
      rw [Options.transfersFrom]
      split
      · exact hone outputs
      · refine List.nodup_cons.mpr ⟨fun hmem => ?_, List.nodup_cons.mpr ⟨hfresh _ _ _ _ _, ih _ _⟩⟩
        rcases List.mem_cons.mp hmem with he | hmem
        · cases (target_injective he).2
        · exact hfresh _ _ _ _ _ hmem

theorem mem_taskScript {deed : Deed} :
    deed ∈ taskScript o m ↔ (∃ tr ∈ o.transfers m, deed = .transfer tr) ∨ deed = .marks m := by
  rw [taskScript, List.mem_append, List.mem_map, List.mem_singleton]
  exact or_congr_left (exists_congr fun tr => and_congr_right fun _ => eq_comm)

theorem taskScript_target (h : IsName o.marksFile) {deed : Deed} (hdeed : deed ∈ taskScript o m) :
    ∃ name, IsName name ∧ deed.target o = Path.join (o.targetDir m.task) name := by
  rcases mem_taskScript.mp hdeed with ⟨tr, htr, rfl⟩ | rfl
  · rcases mem_transfersFrom.mp htr with ⟨j, record, -, rfl⟩ | ⟨-, j, record, -, -, rfl⟩
    · exact ⟨_, isName_numbered _ true, transfer_target o m.task true _ record⟩
    · exact ⟨_, isName_numbered _ false, transfer_target o m.task false _ record⟩
  · exact ⟨_, h, rfl⟩

theorem keyOf_taskScript_target (t : Tree) (h : IsName o.marksFile) {deed : Deed} (hdeed : deed ∈ taskScript o m) :
    ∃ name, t.keyOf (deed.target o) = t.keyOf (o.targetDir m.task) ++ [name] := by
  obtain ⟨name, hname, htarget⟩ := taskScript_target h hdeed
  exact ⟨name, by rw [htarget, Tree.keyOf_join_name t _ hname]⟩

theorem taskScript_targets_nodup (t : Tree) (h : IsName o.marksFile) (hfresh : MarksFresh o m) :
    ((taskScript o m).map fun deed => t.keyOf (deed.target o)).Nodup := by
  rw [taskScript, List.map_append, List.map_map]
  refine List.nodup_append.mpr ⟨transfersFrom_targets_nodup t o m.task 0 m.inputs m.outputs, by simp, ?_⟩
  rintro key hkey key' hmarks rfl
  obtain ⟨tr, htr, rfl⟩ := List.mem_map.mp hkey
  have he : t.keyOf tr.target = t.keyOf (o.marksPath m) := by simpa [Deed.target] using hmarks
  rw [keyOf_marksPath t h m] at he
  -- The marks file would be a numbered one.
  obtain ⟨index, isInput, record, hindex, rfl⟩ : ∃ index isInput record, index < m.inputs.length ∧
      tr = o.transfer m.task isInput index record := by
    rcases mem_transfersFrom.mp htr with ⟨j, record, hrecord, rfl⟩ | ⟨-, j, record, hj, -, rfl⟩
    · obtain ⟨hj, -⟩ := List.getElem?_eq_some_iff.mp hrecord
      exact ⟨_, true, record, by rwa [Nat.zero_add], rfl⟩
    · exact ⟨_, false, record, by rwa [Nat.zero_add], rfl⟩
  rw [keyOf_target] at he
  exact hfresh index isInput hindex (List.singleton_inj.mp (List.append_cancel_left he)).symm

theorem script_targets_nodup (t : Tree) (h : Arranged o tasks) :
    ((script o tasks).map fun deed => t.keyOf (deed.target o)).Nodup := by
  induction tasks with
  | nil => exact List.nodup_nil
  | cons m tasks ih =>
    rw [script, List.flatMap_cons, List.map_append]
    refine List.nodup_append.mpr
      ⟨taskScript_targets_nodup t h.marksName (h.marksFresh m List.mem_cons_self), ih h.tail, ?_⟩
    rintro key hkey _ hkey' rfl
    obtain ⟨deed, hdeed, rfl⟩ := List.mem_map.mp hkey
    obtain ⟨deed', hdeed', he⟩ := List.mem_map.mp hkey'
    obtain ⟨m', hm', hdeed'⟩ := List.mem_flatMap.mp hdeed'
    obtain ⟨name, hname⟩ := keyOf_taskScript_target t h.marksName hdeed
    obtain ⟨name', hname'⟩ := keyOf_taskScript_target t h.marksName hdeed'
    obtain ⟨way, hway, htask⟩ := h.ways m List.mem_cons_self
    obtain ⟨way', hway', htask'⟩ := h.ways m' (List.mem_cons_of_mem _ hm')
    have hdir : t.keyOf (o.targetDir m'.task) = t.keyOf (o.targetDir m.task) :=
      List.append_inj_left' (hname'.symm.trans (he.trans hname)) rfl
    rw [Options.targetDir, Options.targetDir, htask, htask', Tree.keyOf_directory t _ hway,
      Tree.keyOf_directory t _ hway'] at hdir
    have hsame : m'.task = m.task := by rw [htask, htask', List.append_cancel_left hdir]
    exact (List.nodup_cons.mp h.distinct).1 (hsame ▸ List.mem_map_of_mem hm')

theorem target_fresh (t : Tree) (h : Arranged o tasks) {deed : Deed} (hscript : deeds ++ [deed] <+: script o tasks) :
    ∀ earlier ∈ deeds, t.keyOf (earlier.target o) ≠ t.keyOf (deed.target o) := by
  have hnodup := List.Nodup.sublist (hscript.map _).sublist (script_targets_nodup t h)
  rw [List.map_append] at hnodup
  intro earlier hearlier
  exact (List.nodup_append.mp hnodup).2.2 _ (List.mem_map_of_mem hearlier) _
    (List.mem_map_of_mem (List.mem_singleton_self deed))

end Conversion

end ContestTests
