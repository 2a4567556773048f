import ContestTests.Proofs.Conversion.Progress

/-!
# Runs of a conversion

A conversion changes the tree step by step: it makes a directory, transfers a file or writes a marks file.
However it ends, its run performs a first part of its script. What a run does to a file is said without
any condition on the paths: unless the file is moved, it stays what it is or has marks written over it.
-/

namespace ContestTests

variable {t t' t₁ start : Tree} {path source target : String} {key : Key} {content : ByteArray}
  {files : Key → Option ByteArray}

structure Tree.Turns (t t' : Tree) (files : Key → Option ByteArray) : Prop where
  wellFormed : t'.WellFormed
  current : t'.current = t.current
  fileAt : t'.fileAt = files

def Tree.Writable (t : Tree) (path : String) : Prop :=
  ∃ t' : Tree, t'.WellFormed ∧ t'.current = t.current ∧ t'.locate path = .ok (t.keyOf path) ∧
    t'.find? (t.keyOf path) ≠ some .directory

theorem Tree.Writable.congr (h : t.Writable path) (hcurrent : t.current = start.current) :
    start.Writable path := by
  obtain ⟨t', ht', hcurrent', hlocate, hdir⟩ := h
  rw [Tree.keyOf_congr hcurrent] at hlocate hdir
  exact ⟨t', ht', hcurrent'.trans hcurrent, hlocate, hdir⟩

theorem Tree.Writable.exists? (h : t.Writable path) (ht : t.WellFormed) (hgrounded : t.Grounded path)
    (hfile : t.fileAt (t.keyOf path) = some content) : t.exists? path := by
  obtain ⟨t', -, hcurrent, hlocate, hdir⟩ := h
  have hstands := Tree.fileAt_eq_some_iff.mp hfile
  have hthere := ht.locate_of_grounded hcurrent hgrounded hlocate (fun he => absurd he hdir) hstands
  exact Tree.exists?_iff.mpr ⟨_, hthere, hstands⟩

theorem Tree.makeDir_turns (ht : t.WellFormed) (h : t.makeDir path = .ok t') : t.Turns t' t.fileAt := by
  have hadds := Tree.makeDir_addsDirs ht h List.prefix_rfl
  exact ⟨hadds.wellFormed, hadds.current, hadds.fileAt⟩

namespace Conversion

variable {o : Options} {m : TaskMatch} {tr : Transfer} {deeds more : List Deed} {tasks : List TaskMatch}
  {mode : TransferMode} {above : Action Unit} {w w' : Work Unit} {ds ds' : List Deed}

theorem write_turns (ht : t.WellFormed) (h : t.write path content = .ok t') :
    t.Writable path ∧ t.Turns t' (filled (t.keyOf path) content t.fileAt) := by
  obtain ⟨hlocate, hdir, hbecomes⟩ := Tree.write_becomes ht h
  refine ⟨⟨t, ht, rfl, hlocate, hdir⟩, hbecomes.wellFormed, hbecomes.current, ?_⟩
  funext k
  rw [Tree.fileAt, hbecomes.find?, filled]
  split <;> rfl

theorem transferFile_source (ht : t.WellFormed) (hsource : mode = .move → t.find? (t.keyOf source) ≠ some .directory)
    (h : transferFile mode source target t = .ok () t') : t.find? (t.keyOf source) ≠ some .directory := by
  cases (transferFile_eq_ok.mp h).2 with
  | copied hcopy =>
    obtain ⟨content, hfind, -⟩ := Tree.copyFile_becomes ht hcopy
    simp [hfind]
  | renamed => exact hsource rfl
  | replaced => exact hsource rfl

theorem transferFile_turns (ht : t.WellFormed) (hsource : mode = .move → t.find? (t.keyOf source) ≠ some .directory)
    (h : transferFile mode source target t = .ok () t') :
    ∃ content, t.fileAt (t.keyOf source) = some content ∧ t.fileAt (t.keyOf target) = none ∧
      t.Turns t' (transferred mode (t.keyOf source) (t.keyOf target) content t.fileAt) := by
  have hdir := transferFile_source ht hsource h
  obtain ⟨content, hfind, hnone, hbecomes⟩ := transferFile_becomes ht hdir h
  refine ⟨content, Tree.fileAt_eq_some_iff.mpr hfind, by rw [Tree.fileAt, hnone]; rfl, hbecomes.wellFormed,
    hbecomes.current, ?_⟩
  funext k
  rw [Tree.fileAt, hbecomes.find?, transferred]
  split
  · rfl
  · split <;> rfl

-- ---------------------------------------------------------------------------
-- Steps
-- ---------------------------------------------------------------------------

/-- Changes of a tree one after the other, with the deeds among them. -/
inductive Run (o : Options) : Tree → List Deed → Tree → Prop
  | done (t : Tree) : Run o t [] t
  | directory {t t₁ t' : Tree} {path : String} {deeds : List Deed} :
      t.makeDir path = .ok t₁ → Run o t₁ deeds t' → Run o t deeds t'
  | transfer {t t₁ t' : Tree} {tr : Transfer} {deeds : List Deed} :
      transferFile o.mode tr.source tr.target t = .ok () t₁ → Run o t₁ deeds t' → Run o t (.transfer tr :: deeds) t'
  | marks {t t₁ t' : Tree} {m : TaskMatch} {deeds : List Deed} :
      t.write (o.marksPath m) (marksContent m) = .ok t₁ → Run o t₁ deeds t' → Run o t (.marks m :: deeds) t'

namespace Run

theorem append (h : Run o t deeds t₁) (h' : Run o t₁ more t') : Run o t (deeds ++ more) t' := by
  induction h with
  | done t => exact h'
  | directory hmake _ ih => exact .directory hmake (ih h')
  | transfer htransfer _ ih => exact .transfer htransfer (ih h')
  | marks hwrite _ ih => exact .marks hwrite (ih h')

theorem split (h : Run o t (deeds ++ more) t') : ∃ t₁, Run o t deeds t₁ ∧ Run o t₁ more t' := by
  generalize hall : deeds ++ more = all at h
  induction h generalizing deeds with
  | done t =>
    obtain ⟨rfl, rfl⟩ := List.append_eq_nil_iff.mp hall
    exact ⟨t, .done t, .done t⟩
  | directory hmake _ ih =>
    obtain ⟨t₁, hfirst, hrest⟩ := ih hall
    exact ⟨t₁, .directory hmake hfirst, hrest⟩
  | @transfer t _ _ tr _ htransfer hmore ih =>
    cases deeds with
    | nil =>
      subst hall
      exact ⟨t, .done t, .transfer htransfer hmore⟩
    | cons deed deeds =>
      obtain ⟨rfl, htail⟩ := List.cons.inj hall
      obtain ⟨t₁, hfirst, hrest⟩ := ih htail
      exact ⟨t₁, .transfer htransfer hfirst, hrest⟩
  | @marks t _ _ m _ hwrite hmore ih =>
    cases deeds with
    | nil =>
      subst hall
      exact ⟨t, .done t, .marks hwrite hmore⟩
    | cons deed deeds =>
      obtain ⟨rfl, htail⟩ := List.cons.inj hall
      obtain ⟨t₁, hfirst, hrest⟩ := ih htail
      exact ⟨t₁, .marks hwrite hfirst, hrest⟩

end Run

-- ---------------------------------------------------------------------------
-- Works
-- ---------------------------------------------------------------------------

def Builds (action : Action Unit) : Prop := ∀ o t, Run o t [] (Tree.leaves (action t))

theorem run_of_makes {parts : String → Prop} (h : Tree.Makes parts t t') (o : Options) : Run o t [] t' := by
  induction h with
  | done t => exact .done t
  | made _ hmake _ ih => exact .directory hmake ih

theorem builds_createDirs (path : String) : Builds (Action.createDirs path) :=
  fun o t => run_of_makes (Tree.createDirs_makes path t) o

/-- Work that runs through these deeds, or fails behind a first part of them. -/
def Performs (o : Options) (w : Work Unit) (ds : List Deed) : Prop :=
  ∀ p, (∀ p', w p = .ok () p' → Run o p.tree ds p'.tree) ∧
    ∀ failure p', w p = .error failure p' → ∃ first rest, ds = first ++ rest ∧ Run o p.tree first p'.tree

theorem Performs.bind (h : Performs o w ds) (h' : Performs o w' ds') :
    Performs o (w >>= fun _ => w') (ds ++ ds') := by
  intro p
  refine ⟨fun p' hp' => ?_, fun failure p' hp' => ?_⟩
  · obtain ⟨⟨⟩, p₁, hw, hw'⟩ := stateBind_eq_ok.mp hp'
    exact ((h p).1 p₁ hw).append ((h' p₁).1 p' hw')
  · rcases stateBind_eq_error.mp hp' with hw | ⟨⟨⟩, p₁, hw, hw'⟩
    · obtain ⟨first, rest, rfl, hfirst⟩ := (h p).2 failure p' hw
      exact ⟨first, rest ++ ds', by rw [List.append_assoc], hfirst⟩
    · obtain ⟨first, rest, rfl, hfirst⟩ := (h' p₁).2 failure p' hw'
      exact ⟨ds ++ first, rest, by rw [List.append_assoc], ((h p).1 p₁ hw).append hfirst⟩

theorem performs_pure : Performs o (pure ()) [] := by
  intro p
  refine ⟨fun p' hp' => ?_, fun failure p' hp' => (by cases hp')⟩
  cases hp'
  exact .done p.tree

theorem performs_ensureDir (path : String) : Performs o (Work.ensureDir path) [] := by
  intro p
  have hbuilds := builds_createDirs path o p.tree
  rw [Work.ensureDir]
  split
  · refine ⟨fun p' hp' => ?_, fun failure p' hp' => (by cases hp')⟩
    cases hp'
    exact .done p.tree
  · rw [Work.ofAction]
    split
    · rename_i t₁ hresult
      rw [hresult] at hbuilds
      refine ⟨fun p' hp' => ?_, fun failure p' hp' => (by cases hp')⟩
      cases hp'
      exact hbuilds
    · rename_i fault t₁ hresult
      rw [hresult] at hbuilds
      refine ⟨fun p' hp' => (by cases hp'), fun failure p' hp' => ?_⟩
      cases hp'
      exact ⟨[], [], rfl, hbuilds⟩

theorem performs_transfer (tr : Transfer) : Performs o (Work.transfer o.mode tr) [.transfer tr] := by
  intro p
  refine ⟨fun p' hp' => ?_, fun failure p' hp' => ?_⟩
  · obtain ⟨t₁, hresult, rfl⟩ := Work.transfer_eq_ok hp'
    rw [Progress.count_tree]
    exact .transfer hresult (.done t₁)
  · obtain ⟨rfl, -⟩ := Work.transfer_eq_error hp'
    exact ⟨[], [.transfer tr], rfl, .done p'.tree⟩

theorem performs_transferAll (trs : List Transfer) : Performs o (Work.transferAll o.mode trs) (trs.map .transfer) := by
  induction trs with
  | nil => exact performs_pure
  | cons tr trs ih => exact (performs_transfer tr).bind ih

theorem performs_writeMarks (m : TaskMatch) : Performs o (Work.writeMarks o m) [.marks m] := by
  intro p
  cases hresult : p.tree.write (o.marksPath m) (marksContent m) with
  | ok t₁ =>
    rw [writeMarks_ok hresult]
    refine ⟨fun p' hp' => ?_, fun failure p' hp' => (by cases hp')⟩
    cases hp'
    exact .marks hresult (.done t₁)
  | error fault =>
    rw [writeMarks_error hresult]
    refine ⟨fun p' hp' => (by cases hp'), fun failure p' hp' => ?_⟩
    cases hp'
    exact ⟨[], [.marks m], rfl, .done p.tree⟩

theorem performs_tasks (tasks : List TaskMatch) : Performs o (Work.tasks o tasks) (script o tasks) := by
  induction tasks with
  | nil => exact performs_pure
  | cons m tasks ih =>
    exact ((performs_ensureDir _).bind ((performs_transferAll _).bind (performs_writeMarks m))).bind ih

-- ---------------------------------------------------------------------------
-- Files
-- ---------------------------------------------------------------------------

structure Movable (start : Tree) (deeds : List Deed) (t : Tree) : Prop where
  files : ∀ tr ∈ transfersOf deeds, ∃ content, t.fileAt (start.keyOf tr.source) = some content
  distinct : ((transfersOf deeds).map fun tr => start.keyOf tr.source).Nodup

namespace Movable

theorem not_directory (h : Movable start (.transfer tr :: deeds) t) :
    t.find? (start.keyOf tr.source) ≠ some .directory := by
  obtain ⟨content, hfile⟩ := h.files tr List.mem_cons_self
  simp [Tree.fileAt_eq_some_iff.mp hfile]

theorem source_fresh (h : Movable start (.transfer tr :: deeds) t) :
    ∀ tr' ∈ transfersOf deeds, start.keyOf tr'.source ≠ start.keyOf tr.source := by
  intro tr' htr' he
  exact (List.nodup_cons.mp h.distinct).1 (List.mem_map.mpr ⟨tr', htr', he⟩)

theorem source_ne (h : Movable start deeds t) (hnone : t.fileAt key = none) :
    ∀ tr ∈ transfersOf deeds, start.keyOf tr.source ≠ key := by
  intro tr htr he
  obtain ⟨content, hfile⟩ := h.files tr htr
  rw [he, hnone] at hfile
  cases hfile

end Movable

/-- A conversion that has these deeds before it. -/
structure Underway (start : Tree) (o : Options) (deeds : List Deed) (t : Tree) : Prop where
  wellFormed : t.WellFormed
  current : t.current = start.current
  movable : o.mode = .move → Movable start deeds t

namespace Underway

theorem keyOf (h : Underway start o deeds t) (path : String) : t.keyOf path = start.keyOf path :=
  Tree.keyOf_congr h.current path

theorem first (h : Underway start o (deeds ++ more) t) : Underway start o deeds t := by
  refine ⟨h.wellFormed, h.current, fun hmove => ?_⟩
  obtain ⟨hfiles, hdistinct⟩ := h.movable hmove
  rw [transfersOf_append] at hfiles hdistinct
  rw [List.map_append] at hdistinct
  exact ⟨fun tr htr => hfiles tr (List.mem_append_left _ htr), (List.nodup_append.mp hdistinct).1⟩

theorem directory (h : Underway start o deeds t) (hmake : t.makeDir path = .ok t₁) :
    Underway start o deeds t₁ ∧ t₁.fileAt = t.fileAt := by
  have hturns := Tree.makeDir_turns h.wellFormed hmake
  refine ⟨⟨hturns.wellFormed, hturns.current.trans h.current, fun hmove => ⟨?_, (h.movable hmove).distinct⟩⟩,
    hturns.fileAt⟩
  rw [hturns.fileAt]
  exact (h.movable hmove).files

theorem transfer (h : Underway start o (.transfer tr :: deeds) t)
    (htransfer : transferFile o.mode tr.source tr.target t = .ok () t₁) :
    ∃ content, t.fileAt (start.keyOf tr.source) = some content ∧ t.fileAt (start.keyOf tr.target) = none ∧
      Underway start o deeds t₁ ∧
        t₁.fileAt = transferred o.mode (start.keyOf tr.source) (start.keyOf tr.target) content t.fileAt := by
  obtain ⟨content, hsource, hnone, hturns⟩ := transferFile_turns h.wellFormed
    (fun hmove => h.keyOf tr.source ▸ (h.movable hmove).not_directory) htransfer
  rw [h.keyOf] at hsource hnone
  rw [h.keyOf, h.keyOf] at hturns
  refine ⟨content, hsource, hnone, ⟨hturns.wellFormed, hturns.current.trans h.current, fun hmove => ?_⟩, hturns.fileAt⟩
  have hmovable := h.movable hmove
  refine ⟨fun tr' htr' => ?_, (List.nodup_cons.mp hmovable.distinct).2⟩
  obtain ⟨content', hfile⟩ := hmovable.files tr' (List.mem_cons_of_mem _ htr')
  refine ⟨content', ?_⟩
  rw [hturns.fileAt, transferred, if_neg (hmovable.source_ne hnone tr' (List.mem_cons_of_mem _ htr')),
    if_neg fun he => hmovable.source_fresh tr' htr' he.2, hfile]

theorem marks (h : Underway start o (.marks m :: deeds) t)
    (hwrite : t.write (o.marksPath m) (marksContent m) = .ok t₁) :
    start.Writable (o.marksPath m) ∧ Underway start o deeds t₁ ∧
      t₁.fileAt = filled (start.keyOf (o.marksPath m)) (marksContent m) t.fileAt := by
  obtain ⟨hwritable, hturns⟩ := write_turns h.wellFormed hwrite
  rw [h.keyOf] at hturns
  refine ⟨hwritable.congr h.current, ⟨hturns.wellFormed, hturns.current.trans h.current, fun hmove => ?_⟩,
    hturns.fileAt⟩
  refine ⟨fun tr htr => ?_, (h.movable hmove).distinct⟩
  obtain ⟨content, hfile⟩ := (h.movable hmove).files tr htr
  rw [hturns.fileAt, filled]
  split
  · exact ⟨_, rfl⟩
  · exact ⟨content, hfile⟩

end Underway

/-- Marks of one of the deeds were written where their path leads to the key, and are there. -/
def Overwritten (start : Tree) (o : Options) (deeds : List Deed) (key : Key) (t : Tree) : Prop :=
  ∃ m, .marks m ∈ deeds ∧ start.keyOf (o.marksPath m) = key ∧ start.Writable (o.marksPath m) ∧
    t.fileAt key = some (marksContent m)

theorem Overwritten.behind (h : Overwritten start o deeds key t) (deed : Deed) :
    Overwritten start o (deed :: deeds) key t := by
  obtain ⟨m, hm, hrest⟩ := h
  exact ⟨m, List.mem_cons_of_mem _ hm, hrest⟩

/-- No deed moves the file away. -/
def Unmoved (start : Tree) (o : Options) (deeds : List Deed) (key : Key) : Prop :=
  o.mode = .move → ∀ tr ∈ transfersOf deeds, start.keyOf tr.source ≠ key

theorem Unmoved.tail (h : Unmoved start o (.transfer tr :: deeds) key) : Unmoved start o deeds key :=
  fun hmove tr' htr' => h hmove tr' (List.mem_cons_of_mem _ htr')

namespace Run

theorem stays (h : Run o t deeds t') (hway : Underway start o deeds t) (hfile : t.fileAt key = some content)
    (hkept : Unmoved start o deeds key) : t'.fileAt key = some content ∨ Overwritten start o deeds key t' := by
  induction h generalizing content with
  | done t => exact .inl hfile
  | directory hmake _ ih =>
    obtain ⟨hway₁, hfiles⟩ := hway.directory hmake
    exact ih hway₁ (by rw [hfiles, hfile]) hkept
  | @transfer t t₁ t' tr deeds htransfer _ ih =>
    obtain ⟨moved, -, hnone, hway₁, hfiles⟩ := hway.transfer htransfer
    have hne : key ≠ start.keyOf tr.target := by
      rintro rfl
      rw [hnone] at hfile
      cases hfile
    have hthere : t₁.fileAt key = some content := by
      rw [hfiles, transferred, if_neg hne, if_neg, hfile]
      exact fun hmoved => hkept hmoved.1 tr List.mem_cons_self hmoved.2.symm
    exact (ih hway₁ hthere hkept.tail).imp_right fun hover => hover.behind _
  | @marks t t₁ t' m deeds hwrite _ ih =>
    obtain ⟨hwritable, hway₁, hfiles⟩ := hway.marks hwrite
    by_cases hkey : key = start.keyOf (o.marksPath m)
    · rcases ih hway₁ (by rw [hfiles, filled, if_pos hkey]) hkept with hsame | hover
      · exact .inr ⟨m, List.mem_cons_self, hkey.symm, hwritable, hsame⟩
      · exact .inr (hover.behind _)
    · exact (ih hway₁ (by rw [hfiles, filled, if_neg hkey, hfile]) hkept).imp_right fun hover => hover.behind _

theorem underway (h : Run o t deeds t') (hway : Underway start o (deeds ++ more) t) : Underway start o more t' := by
  induction h with
  | done => exact hway
  | directory hmake _ ih => exact ih (hway.directory hmake).1
  | transfer htransfer _ ih =>
    obtain ⟨-, -, -, hway₁, -⟩ := hway.transfer htransfer
    exact ih hway₁
  | marks hwrite _ ih =>
    obtain ⟨-, hway₁, -⟩ := hway.marks hwrite
    exact ih hway₁

/-- The file of a transfer arrives with what it holds when its turn comes, and is not moved on. -/
theorem arrives (h : Run o t (.transfer tr :: deeds) t') (hway : Underway start o (.transfer tr :: deeds) t) :
    ∃ content, t.fileAt (start.keyOf tr.source) = some content ∧
      Unmoved start o (.transfer tr :: deeds) (start.keyOf tr.target) ∧
      (t'.fileAt (start.keyOf tr.target) = some content ∨ Overwritten start o deeds (start.keyOf tr.target) t') := by
  generalize hall : Deed.transfer tr :: deeds = all at h
  induction h with
  | done => cases hall
  | marks => cases hall
  | directory hmake _ ih =>
    obtain ⟨hway₁, hfiles⟩ := hway.directory hmake
    rw [← hfiles]
    exact ih hway₁ hall
  | transfer htransfer hrest _ =>
    cases hall
    obtain ⟨content, hsource, hnone, hway₁, hfiles⟩ := hway.transfer htransfer
    have hkept : Unmoved start o (.transfer tr :: deeds) (start.keyOf tr.target) :=
      fun hmove => (hway.movable hmove).source_ne hnone
    exact ⟨content, hsource, hkept, hrest.stays hway₁ (by rw [hfiles, transferred, if_pos rfl]) hkept.tail⟩

theorem marked (h : Run o t deeds t') (hway : Underway start o deeds t) (hm : .marks m ∈ deeds) :
    start.Writable (o.marksPath m) ∧ (Unmoved start o deeds (start.keyOf (o.marksPath m)) →
      Overwritten start o deeds (start.keyOf (o.marksPath m)) t') := by
  induction h with
  | done => cases hm
  | directory hmake _ ih => exact ih (hway.directory hmake).1 hm
  | transfer htransfer _ ih =>
    obtain ⟨-, -, -, hway₁, -⟩ := hway.transfer htransfer
    obtain ⟨hwritable, hover⟩ := ih hway₁ ((List.mem_cons.mp hm).resolve_left (by simp))
    exact ⟨hwritable, fun hkept => (hover hkept.tail).behind _⟩
  | @marks _ _ _ m' _ hwrite hrest ih =>
    obtain ⟨hwritable, hway₁, hfiles⟩ := hway.marks hwrite
    rcases List.mem_cons.mp hm with he | hm
    · cases he
      refine ⟨hwritable, fun hkept => ?_⟩
      rcases hrest.stays hway₁ (by rw [hfiles, filled, if_pos rfl]) hkept with hsame | hover
      · exact ⟨m, List.mem_cons_self, rfl, hwritable, hsame⟩
      · exact hover.behind _
    · obtain ⟨hwritable', hover⟩ := ih hway₁ hm
      exact ⟨hwritable', fun hkept => (hover hkept).behind _⟩

end Run

-- ---------------------------------------------------------------------------
-- The whole conversion
-- ---------------------------------------------------------------------------

variable {c : Candidate}

theorem mem_of_marks (h : .marks m ∈ script o tasks) : m ∈ tasks := by
  obtain ⟨m', hm', hdeed⟩ := List.mem_flatMap.mp h
  rcases mem_taskScript.mp hdeed with ⟨tr, -, he⟩ | he
  · cases he
  · cases he
    exact hm'

/-- A conversion is a run through a first part of its script, and after a move a cleaning up at most. -/
theorem run_of_apply (t : Tree) (o : Options) (c : Candidate) :
    ∃ deeds rest after, script o c.tasks = deeds ++ rest ∧ Run o t deeds after ∧
      ((apply t o c).tree = after ∨ o.mode = .move ∧ (apply t o c).tree = (removeEmptyDirs o.taskDir after).2) ∧
      (∀ report, (apply t o c).result = .ok report → rest = []) ∧
      ∀ m, .marks m ∈ deeds → m ∈ c.tasks ∧ t.exists? (o.marksPath m) = false := by
  unfold apply
  cases hcheck : check t o c with
  | error failure =>
    exact ⟨[], _, t, rfl, .done t, .inl rfl, fun report he => (by cases he), fun m hm => (by cases hm)⟩
  | ok u =>
    obtain ⟨-, hfree⟩ := check_eq_ok.mp hcheck
    have hmarks {m : TaskMatch} (hm : .marks m ∈ script o c.tasks) : m ∈ c.tasks ∧ t.exists? (o.marksPath m) = false :=
      ⟨mem_of_marks hm, hfree m (mem_of_marks hm)⟩
    obtain ⟨hok, hfail⟩ := performs_tasks (o := o) c.tasks (.start t)
    cases hwork : Work.tasks o c.tasks (.start t) with
    | error failure p =>
      obtain ⟨first, rest, hscript, hrun⟩ := hfail failure p hwork
      refine ⟨first, rest, p.tree, hscript, hrun, .inl rfl, fun report he => (by cases he), fun m hm => hmarks ?_⟩
      rw [hscript]
      exact List.mem_append_left _ hm
    | ok u p =>
      refine ⟨_, [], p.tree, (List.append_nil _).symm, hok p hwork, ?_, fun _ _ => rfl, fun m hm => hmarks hm⟩
      dsimp only
      split
      · rename_i hclean
        exact .inr ⟨hclean.1, rfl⟩
      · exact .inl rfl

end Conversion

end ContestTests
