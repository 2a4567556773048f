import ContestTests.Proofs.Detection.Pairing

/-!
# What a mismatch tells

Inputs and outputs are compared place by place, in the order of their tests, up to the first two files that are not
of the same test. Since both sides are sorted, the file of the smaller test is one too many on its side: its test
occurs there more often than on the other side. So the files that a mismatch names are a place to look for a file
that is missing, and all tasks before are complete.
-/

namespace ContestTests

-- ---------------------------------------------------------------------------
-- The first records apart
-- ---------------------------------------------------------------------------

namespace Record

variable {a b r r' : Record} {as bs : List Record}

/-- Of a smaller test, by group and then by number. -/
def Precedes (a b : Record) : Prop := a.group < b.group ∨ a.group = b.group ∧ a.test < b.test

/-- The first two records side by side that are not of the same test. -/
def FirstApart (as bs : List Record) (a b : Record) : Prop :=
  ∃ before before' after after', as = before ++ a :: after ∧ bs = before' ++ b :: after' ∧
    before.map key = before'.map key ∧ a.key ≠ b.key

def occurrences (records : List Record) (k : Nat × Nat) : Nat := (records.map key).count k

theorem FirstApart.key_ne (h : FirstApart as bs a b) : a.key ≠ b.key := by
  obtain ⟨_, _, _, _, -, -, -, hkey⟩ := h
  exact hkey

theorem FirstApart.symm (h : FirstApart as bs a b) : FirstApart bs as b a := by
  obtain ⟨before, before', after, after', has, hbs, hsame, hkey⟩ := h
  exact ⟨before', before, after', after, hbs, has, hsame.symm, hkey.symm⟩

theorem FirstApart.cons (h : FirstApart as bs a b) (hkey : r.key = r'.key) : FirstApart (r :: as) (r' :: bs) a b := by
  obtain ⟨before, before', after, after', rfl, rfl, hsame, hapart⟩ := h
  exact ⟨r :: before, r' :: before', after, after', rfl, rfl, by rw [List.map_cons, List.map_cons, hkey, hsame], hapart⟩

theorem precedes_or (h : a.key ≠ b.key) : a.Precedes b ∨ b.Precedes a := by
  rw [key, key, ne_eq, Prod.mk.injEq] at h
  unfold Precedes
  omega

theorem Precedes.key_ne (h : a.Precedes b) (hle : b.notAfter r) : r.key ≠ a.key := by
  rw [notAfter_iff] at hle
  rw [key, key, ne_eq, Prod.mk.injEq]
  unfold Precedes at h
  omega

/-- The other side has the smaller test only among the records that come before, which have the same tests on both
sides. -/
theorem FirstApart.occurrences_lt (h : FirstApart as bs a b) (hbs : bs.Pairwise fun a b => a.notAfter b)
    (hlt : a.Precedes b) : occurrences bs a.key < occurrences as a.key := by
  obtain ⟨before, before', after, after', rfl, rfl, hsame, -⟩ := h
  have hrest : ((b :: after').map key).count a.key = 0 := by
    refine List.count_eq_zero.mpr fun hmem => ?_
    obtain ⟨r, hr, hkey⟩ := List.mem_map.mp hmem
    refine hlt.key_ne ?_ hkey
    rcases List.mem_cons.mp hr with rfl | hr
    · exact notAfter_of_key_eq rfl
    · exact (List.pairwise_cons.mp (List.pairwise_append.mp hbs).2.1).1 r hr
  have hcommon : (before'.map key).count a.key = (before.map key).count a.key := by rw [hsame]
  simp only [occurrences, List.map_append, List.count_append, hcommon, hrest]
  rw [List.map_cons, List.count_cons_self]
  omega

end Record

namespace Detection

open Record (FirstApart occurrences)

variable {t : Tree} {context : Template.Context} {options : Options} {definition : Definition} {input output : Pattern}
  {tasks : List Task} {m : TaskMatch} {ms : List TaskMatch} {inputs outputs : List Record} {a b : Record}
  {label x y : String} {rejection : Rejection}

-- ---------------------------------------------------------------------------
-- Checks that tell of no mismatch
-- ---------------------------------------------------------------------------

def IsMismatch : Rejection → Prop
  | .groupMismatch _ _ _ | .testMismatch _ _ _ => True
  | _ => False

/-- Whatever a step objects to, it is no mismatch of tests. -/
def NoMismatch (step : Except Rejection α) : Prop := ∀ rejection, step = .error rejection → ¬ IsMismatch rejection

theorem NoMismatch.ok (a : α) : NoMismatch (.ok a) := fun _ h => nomatch h

theorem NoMismatch.error (h : ¬ IsMismatch rejection) : NoMismatch (.error rejection : Except Rejection α) := by
  rintro _ he
  cases he
  exact h

theorem NoMismatch.bind {step : Except Rejection α} {next : α → Except Rejection β} (hstep : NoMismatch step)
    (hnext : ∀ a, NoMismatch (next a)) : NoMismatch (step >>= next) := by
  intro rejection h
  rcases bind_eq_error.mp h with hfirst | ⟨a, -, hafter⟩
  · exact hstep rejection hfirst
  · exact hnext a rejection hafter

theorem NoMismatch.map {step : Except Rejection α} (h : NoMismatch step) (f : α → β) : NoMismatch (step.map f) := by
  cases step with
  | error rejection => exact .error (h rejection rfl)
  | ok a => exact .ok (f a)

theorem NoMismatch.mapM {f : α → Except Rejection β} (h : ∀ a, NoMismatch (f a)) (as : List α) :
    NoMismatch (as.mapM f) := by
  induction as with
  | nil => exact .ok []
  | cons a as ih =>
    rw [List.mapM_cons]
    exact (h a).bind fun b => ih.bind fun bs => .ok (b :: bs)

theorem noMismatch_compileTemplate (context : Template.Context) (template : String) :
    NoMismatch (compileTemplate context template) := by
  unfold compileTemplate
  cases Pattern.compile context template with
  | error error => exact .error (show ¬ IsMismatch (.template error) from id)
  | ok p => exact .ok p

theorem noMismatch_classify (input output : Pattern) (infilesOnly : Bool) (label : String) (paths : List String) :
    NoMismatch (classify input output infilesOnly label paths) := by
  induction paths with
  | nil => exact .ok _
  | cons path paths ih =>
    rw [classify]
    split
    · exact .error id
    · exact ih.map _
    · exact ih.map _
    · exact ih

theorem noMismatch_matchTask (input output : Pattern) (infilesOnly : Bool) (task : Task) :
    NoMismatch (matchTask input output infilesOnly task) := by
  refine (noMismatch_classify _ _ _ _ _).bind fun (ins, outs) => ?_
  dsimp only
  split
  · exact .error id
  · exact .ok _

theorem noMismatch_checkTargets (t : Tree) (label directory extension : String) (index : Nat) (seen : List String)
    (records : List Record) : NoMismatch (checkTargets t label directory extension index seen records) := by
  induction records generalizing index seen with
  | nil => exact .ok seen
  | cons record records ih =>
    rw [checkTargets]
    split
    · exact .error id
    split
    · exact .error id
    · exact ih _ _

theorem noMismatch_checkFileSet (t : Tree) (workDir : String) (m : TaskMatch) : NoMismatch (checkFileSet t workDir m) :=
  (noMismatch_checkTargets _ _ _ _ _ _ _).bind fun _ => (noMismatch_checkTargets _ _ _ _ _ _ _).bind fun _ => .ok ()

theorem noMismatch_checkNames (label : String) (records : List Record) : NoMismatch (checkNames label records) := by
  unfold checkNames
  split
  · exact .ok ()
  split
  · exact .error id
  · exact .ok ()

theorem noMismatch_checkSameName (label : String) (inputs outputs : List Record) :
    NoMismatch (checkSameName label inputs outputs) := by
  unfold checkSameName
  split
  · split
    · exact .error id
    · exact .ok ()
  · exact .ok ()

theorem noMismatch_checkTaskCounts (ms : List TaskMatch) : NoMismatch (checkTaskCounts ms) := by
  unfold checkTaskCounts
  dsimp only
  split
  · exact .error id
  · exact .ok ()

theorem noMismatch_checkAll {check : TaskMatch → Except Rejection Unit} (h : ∀ m, NoMismatch (check m))
    (ms : List TaskMatch) : NoMismatch (checkAll check ms) := by
  induction ms with
  | nil => exact .ok ()
  | cons m ms ih => exact (h m).bind fun _ => ih

theorem NoMismatch.skip {step : Except Rejection α} {next : α → Except Rejection β} (hstep : NoMismatch step)
    (hmismatch : IsMismatch rejection) (h : step >>= next = .error rejection) :
    ∃ a, step = .ok a ∧ next a = .error rejection := by
  rcases bind_eq_error.mp h with hfirst | hafter
  · exact absurd hmismatch (hstep rejection hfirst)
  · exact hafter

-- ---------------------------------------------------------------------------
-- Checks that do
-- ---------------------------------------------------------------------------

def mismatch (label : String) (a b : Record) : Rejection :=
  if a.group ≠ b.group then .groupMismatch label a.path b.path else .testMismatch label a.path b.path

theorem mismatch_tells (h : rejection = mismatch label a b)
    (hmismatch : rejection = .groupMismatch label' x y ∨ rejection = .testMismatch label' x y) :
    label = label' ∧ a.path = x ∧ b.path = y ∧ (rejection = .groupMismatch label' x y → a.group ≠ b.group) ∧
      (rejection = .testMismatch label' x y → a.group = b.group) := by
  rw [mismatch] at h
  split at h
  · rename_i hgroup
    rcases hmismatch with rfl | rfl <;> cases h
    exact ⟨rfl, rfl, rfl, fun _ => hgroup, nofun⟩
  · rename_i hgroup
    rcases hmismatch with rfl | rfl <;> cases h
    exact ⟨rfl, rfl, rfl, nofun, fun _ => not_ne_iff.mp hgroup⟩

theorem checkTests_eq_error (h : checkTests label inputs outputs = .error rejection) :
    ∃ a b, FirstApart inputs outputs a b ∧ rejection = mismatch label a b := by
  induction inputs generalizing outputs with
  | nil => simp [checkTests] at h
  | cons i inputs ih =>
    cases outputs with
    | nil => simp [checkTests] at h
    | cons o outputs =>
      have hhead (hkey : i.key ≠ o.key) : FirstApart (i :: inputs) (o :: outputs) i o :=
        ⟨[], [], inputs, outputs, rfl, rfl, rfl, hkey⟩
      rw [checkTests] at h
      split at h
      · rename_i hgroup
        cases h
        exact ⟨i, o, hhead fun hkey => hgroup (congrArg Prod.fst hkey), (if_pos hgroup).symm⟩
      split at h
      · rename_i hgroup htest
        cases h
        exact ⟨i, o, hhead fun hkey => htest (congrArg Prod.snd hkey), (if_neg hgroup).symm⟩
      · rename_i hgroup htest
        obtain ⟨a, b, hapart, hrejection⟩ := ih h
        have hkey : i.key = o.key := by rw [Record.key, Record.key, not_ne_iff.mp hgroup, not_ne_iff.mp htest]
        exact ⟨a, b, hapart.cons hkey, hrejection⟩

theorem checkPairs_eq_error (h : checkPairs m = .error rejection) (hmismatch : IsMismatch rejection) :
    m.inputs.length = m.outputs.length ∧
      ∃ a b, FirstApart m.inputs m.outputs a b ∧ rejection = mismatch (Task.label m.task) a b := by
  rw [checkPairs] at h
  split at h
  · cases h
    exact absurd hmismatch id
  · rename_i hlength
    obtain ⟨_, -, h⟩ := (noMismatch_checkNames _ _).skip hmismatch h
    obtain ⟨_, -, h⟩ := (noMismatch_checkNames _ _).skip hmismatch h
    obtain ⟨_, -, h⟩ := (noMismatch_checkSameName _ _ _).skip hmismatch h
    exact ⟨not_ne_iff.mp hlength, checkTests_eq_error h⟩

theorem checkAll_eq_error {check : TaskMatch → Except Rejection Unit} (h : checkAll check ms = .error rejection) :
    ∃ before m after, ms = before ++ m :: after ∧ (∀ other ∈ before, check other = .ok ()) ∧
      check m = .error rejection := by
  induction ms with
  | nil => simp [checkAll] at h
  | cons m ms ih =>
    rcases bind_eq_error.mp h with hfirst | ⟨_, hfirst, hafter⟩
    · exact ⟨[], m, ms, rfl, List.forall_mem_nil _, hfirst⟩
    · obtain ⟨before, m', after, rfl, hbefore, hm'⟩ := ih hafter
      exact ⟨m :: before, m', after, rfl, List.forall_mem_cons.mpr ⟨hfirst, hbefore⟩, hm'⟩

theorem evaluate_eq_error (h : evaluate t context options definition tasks = .error rejection)
    (hmismatch : IsMismatch rejection) : options.infilesOnly = false ∧
      ∃ input output ms, Pattern.compile context definition.input = .ok input ∧
        Pattern.compile context definition.output = .ok output ∧
        List.Forall₂ (fun task m => matchTask input output options.infilesOnly task = .ok m) tasks ms ∧
        (∀ m ∈ ms, checkFileSet t options.workDir m = .ok ()) ∧ checkAll checkPairs ms = .error rejection := by
  obtain ⟨input, hinput, h⟩ := (noMismatch_compileTemplate _ _).skip hmismatch h
  obtain ⟨output, houtput, h⟩ := (noMismatch_compileTemplate _ _).skip hmismatch h
  obtain ⟨ms, hms, h⟩ := (NoMismatch.mapM (noMismatch_matchTask _ _ _) _).skip hmismatch h
  obtain ⟨_, hfiles, h⟩ := (noMismatch_checkAll (noMismatch_checkFileSet _ _) _).skip hmismatch h
  split at h
  · obtain ⟨_, -, h⟩ := (noMismatch_checkAll (fun m => noMismatch_checkNames _ _) _).skip hmismatch h
    cases h
  · rename_i hboth
    obtain ⟨_, -, h⟩ := (noMismatch_checkTaskCounts _).skip hmismatch h
    rcases bind_eq_error.mp h with hpairs | ⟨_, -, h⟩
    · exact ⟨Bool.eq_false_iff.mpr hboth, input, output, ms, compileTemplate_eq_ok_iff.mp hinput,
        compileTemplate_eq_ok_iff.mp houtput, mapM_eq_ok.mp hms, checkAll_eq_ok_iff.mp hfiles, hpairs⟩
    · cases h

theorem exists_mismatched (h : evaluate t context options definition tasks = .error rejection)
    (hmismatch : IsMismatch rejection) : options.infilesOnly = false ∧
      ∃ input output before task after m, Pattern.compile context definition.input = .ok input ∧
        Pattern.compile context definition.output = .ok output ∧ tasks = before ++ task :: after ∧
        matchTask input output options.infilesOnly task = .ok m ∧ checkFileSet t options.workDir m = .ok () ∧
        checkPairs m = .error rejection ∧
        ∀ other ∈ before, ∃ m', matchTask input output options.infilesOnly other = .ok m' ∧ checkPairs m' = .ok () := by
  obtain ⟨hboth, input, output, ms, hinput, houtput, hms, hfiles, hpairs⟩ := evaluate_eq_error h hmismatch
  obtain ⟨before, m, after, rfl, hbefore, hm⟩ := checkAll_eq_error hpairs
  obtain ⟨task, after', hmatch, -, hlater⟩ := List.forall₂_cons_right_iff.mp (List.forall₂_drop_append _ _ _ hms)
  have htasks := List.take_append_drop before.length tasks
  rw [hlater] at htasks
  refine ⟨hboth, input, output, _, task, after', m, hinput, houtput, htasks.symm, hmatch, hfiles m (by simp), hm,
    fun other hother => ?_⟩
  obtain ⟨m', hm', hmatch'⟩ := exists_of_mem_right (List.forall₂_take_append _ _ _ hms).flip hother
  exact ⟨m', hmatch', hbefore m' hm'⟩

-- ---------------------------------------------------------------------------
-- Mismatches
-- ---------------------------------------------------------------------------

/-- What a mismatch tells of the sorted files of a task. -/
structure Diagnosis (m : TaskMatch) (a b : Record) : Prop where
  sameNumber : m.inputs.length = m.outputs.length
  /-- Each of the files is known by its path. -/
  once : ((m.inputs ++ m.outputs).map Record.path).Nodup
  apart : FirstApart m.inputs m.outputs a b
  /-- The file of the smaller test is one too many on its side. -/
  lacks : a.Precedes b ∧ occurrences m.outputs a.key < occurrences m.inputs a.key ∨
    b.Precedes a ∧ occurrences m.inputs b.key < occurrences m.outputs b.key

theorem diagnosis_of_firstApart {task : Task} (hholds : Holds options input output task m)
    (hfiles : checkFileSet t options.workDir m = .ok ()) (hlength : m.inputs.length = m.outputs.length)
    (h : FirstApart m.inputs m.outputs a b) : Diagnosis m a b := by
  refine ⟨hlength, (checkFileSet_eq_ok_iff.mp hfiles).1, h, ?_⟩
  rcases Record.precedes_or h.key_ne with hlt | hlt
  · exact .inl ⟨hlt, h.occurrences_lt hholds.outputs.ordered hlt⟩
  · exact .inr ⟨hlt, h.symm.occurrences_lt hholds.inputs.ordered hlt⟩

/-- A mismatch names the first two files, in the order of their tests, that are not of the same test, in the first task
whose inputs and outputs are not of the same tests. The one of the smaller test has no counterpart: its test occurs
more often on its side. -/
theorem mismatch_lacks_counterpart (hlabels : (tasks.map fun task => Task.label task.name).Nodup)
    (h : evaluate t context options definition tasks = .error rejection)
    (hmismatch : rejection = .groupMismatch label x y ∨ rejection = .testMismatch label x y) :
    ∃ input output before task after m a b, options.infilesOnly = false ∧
      Pattern.compile context definition.input = .ok input ∧ Pattern.compile context definition.output = .ok output ∧
      tasks = before ++ task :: after ∧ Task.label task.name = label ∧
      (∀ other ∈ before ++ after, Task.label other.name ≠ label) ∧
      Holds options input output task m ∧ Diagnosis m a b ∧ a.path = x ∧ b.path = y ∧
      (rejection = .groupMismatch label x y → a.group ≠ b.group) ∧
      (rejection = .testMismatch label x y → a.group = b.group ∧ a.test ≠ b.test) ∧
      ∀ other ∈ before,
        ((input.records other.files).map Record.key).Perm ((output.records other.files).map Record.key) := by
  have his : IsMismatch rejection := by rcases hmismatch with rfl | rfl <;> trivial
  obtain ⟨hboth, input, output, before, task, after, m, hinput, houtput, rfl, hmatch, hfiles, hpairs, hbefore⟩ :=
    exists_mismatched h his
  obtain ⟨hlength, a, b, hapart, hrejection⟩ := checkPairs_eq_error hpairs his
  obtain ⟨-, -, hholds⟩ := matchTask_eq_ok_iff.mp hmatch
  obtain ⟨hlabel, hx, hy, hgroup, htest⟩ := mismatch_tells hrejection hmismatch
  rw [hholds.name] at hlabel
  refine ⟨input, output, before, task, after, m, a, b, hboth, hinput, houtput, rfl, hlabel, fun other hother he => ?_,
    hholds, diagnosis_of_firstApart hholds hfiles hlength hapart, hx, hy, hgroup, fun he => ⟨htest he, fun he' => ?_⟩,
    fun other hother => ?_⟩
  · rw [List.map_append, List.map_cons, List.nodup_middle, ← List.map_append] at hlabels
    exact (List.nodup_cons.mp hlabels).1 (List.mem_map.mpr ⟨other, hother, he.trans hlabel.symm⟩)
  · exact hapart.key_ne (Prod.ext (htest he) he')
  · obtain ⟨m', hmatch', hpairs'⟩ := hbefore other hother
    obtain ⟨-, -, hholds'⟩ := matchTask_eq_ok_iff.mp hmatch'
    have hsame := (checkPairs_eq_ok_iff.mp hpairs').2.2.2
    obtain rfl := holds_iff.mp hholds'
    rw [outputRecords, hboth, if_neg (by simp)] at hsame
    exact Record.map_key_sort_eq_iff.mp hsame

/-- Each side has two files of one test, but not of the same. -/
theorem mismatch_lacks_counterpart_letters :
    ([⟨"", ["1.in", "1.out", "1A.in", "2.in", "2.out", "2A.out"]⟩].map fun task : Task => Task.label task.name).Nodup ∧
    evaluate .empty .default ⟨false, "w"⟩ (letterScheme ".out")
      [⟨"", ["1.in", "1.out", "1A.in", "2.in", "2.out", "2A.out"]⟩] = .error (.groupMismatch "." "1A.in" "2.out") ∧
    ∃ m a b, Diagnosis m a b ∧ a.path = "1A.in" ∧ b.path = "2.out" ∧ a.group ≠ b.group := by
  have hlabels : ([⟨"", ["1.in", "1.out", "1A.in", "2.in", "2.out", "2A.out"]⟩].map
      fun task : Task => Task.label task.name).Nodup := by decide
  have hrejected : evaluate .empty .default ⟨false, "w"⟩ (letterScheme ".out")
      [⟨"", ["1.in", "1.out", "1A.in", "2.in", "2.out", "2A.out"]⟩] = .error (.groupMismatch "." "1A.in" "2.out") := by
    have hmatch : ∃ input output, Pattern.compile .default (letterScheme ".out").input = .ok input ∧
        Pattern.compile .default (letterScheme ".out").output = .ok output ∧
        matchTask input output false ⟨"", ["1.in", "1.out", "1A.in", "2.in", "2.out", "2A.out"]⟩ = .ok ⟨"",
          [⟨"1.in", "", 1, 1⟩, ⟨"1A.in", "", 1, 1⟩, ⟨"2.in", "", 2, 1⟩],
          [⟨"1.out", "", 1, 1⟩, ⟨"2.out", "", 2, 1⟩, ⟨"2A.out", "", 2, 1⟩]⟩ :=
      ⟨_, _, rfl, rfl, matchTask_ordered (by decide +kernel) rfl (by decide) (by decide)⟩
    obtain ⟨input, output, hinput, houtput, hmatch⟩ := hmatch
    simp only [evaluate, compileTemplate, hinput, houtput, Except.mapError, List.mapM_cons, List.mapM_nil, bind,
      Except.bind, hmatch]
    decide +kernel
  obtain ⟨-, -, -, -, -, m, a, b, -, -, -, -, -, -, -, hdiagnosis, hx, hy, hgroup, -⟩ :=
    mismatch_lacks_counterpart hlabels hrejected (.inl rfl)
  exact ⟨hlabels, hrejected, m, a, b, hdiagnosis, hx, hy, hgroup rfl⟩

end Detection

end ContestTests
