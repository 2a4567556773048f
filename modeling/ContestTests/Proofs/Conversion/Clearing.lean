import ContestTests.Proofs.Conversion.Repetition

/-!
# Directories that cleaning up takes

Cleaning up takes directories below the root that hold no file, each after those below it, and nothing else.
It takes all of them if it can come to them, in whatever order directories are told: only a root whose path
climbs out of such a directory can hinder it. A target directory of a conversion always stays.
-/

namespace ContestTests.Conversion

open ContestTests.Path
open ContestTests.Task (pathTo keyOf_pathTo)

variable {t t' : Tree} {base : Key} {root : String} {ways : List Key} {listing other : Listing} {o : Options}
  {c : Candidate} {m : TaskMatch} {report : Report} {scanned : List Task} {context : Template.Context}
  {definition : Definition} {level : Nat} {done : Cleanup × Tree}

-- ---------------------------------------------------------------------------
-- Roots that can be approached
-- ---------------------------------------------------------------------------

/-- A path that does not climb goes through no directory below where it leads. -/
theorem approachable_of_no_up (ht : t.fromRoot.WellFormed) (hup : .up ∉ components root)
    (hroot : t.directoryKey root = .ok base)
    (hlimits : ∀ way, way ≠ [] → t.find? (base ++ way) = some .directory → Tree.WithinLimits (pathTo root way)) :
    Approachable t root base := by
  refine ⟨hroot, fun way hway hdir => Tree.directoryKey_pathTo ht hroot (hlimits way hway hdir).short hdir,
    fun way hway hpasses => ?_⟩
  obtain ⟨first, more, hsplit, -, hkey⟩ := hpasses
  obtain rfl := Tree.locate_eq_ok (Tree.look_eq_ok.mp (Tree.directoryKey_eq_ok.mp hroot)).1
  have hdown := Tree.prefix_of_steps hup hsplit (if isAbsolute root then [] else t.current)
  rw [← hkey, Tree.foldl_stepsOf, ← Tree.keyOf] at hdown
  have hlength := hdown.length_le
  rw [List.length_append] at hlength
  exact absurd (List.length_eq_zero_iff.mp (by omega)) hway

-- ---------------------------------------------------------------------------
-- What a cleaning does
-- ---------------------------------------------------------------------------

/-- Directories without files at these ways went, and nothing else did. -/
structure Clears (t : Tree) (root : String) (ways : List Key) (done : Cleanup × Tree) : Prop where
  removed : done.1.removed = ways.map (pathTo root)
  once : done.1.removed.Nodup
  fileFree : ∀ way ∈ ways, way ≠ [] ∧ t.find? (t.keyOf root ++ way) = some .directory ∧ t.FileFree (t.keyOf root ++ way)
  /-- A directory comes after those below it. -/
  ordered : ways.Pairwise fun a b => ¬ a <+: b
  find? : ∀ key, done.2.find? key = if key ∈ ways.map (t.keyOf root ++ ·) then none else t.find? key
  current : done.2.current = t.current

/-- Every directory without files went, and nothing hindered it. -/
structure ClearsAll (t : Tree) (root : String) (ways : List Key) (done : Cleanup × Tree) : Prop where
  failures : done.1.failures = []
  all : ∀ way, way ≠ [] → t.find? (t.keyOf root ++ way) = some .directory → t.FileFree (t.keyOf root ++ way) → way ∈ ways

theorem pathTo_injective {way way' : Key} (hway : IsWay way) (hway' : IsWay way') (h : pathTo root way = pathTo root way') :
    way = way' := by
  have hkey := congrArg Tree.empty.keyOf h
  rw [keyOf_pathTo _ root hway, keyOf_pathTo _ root hway'] at hkey
  exact List.append_cancel_left hkey

theorem cleanUp_clears (ht : t.fromRoot.WellFormed) (hlisting : Faithful listing) (root : String) :
    ∃ ways, Clears t root ways (cleanUp listing root t) := by
  obtain ⟨ways, hremoved, hprunes⟩ := cleanUp_prunes hlisting ht root
  have hway (way : Key) (h : way ∈ ways) : IsWay way := fun name hname =>
    (ht.fits_of_find? (hprunes.freed way h).2.1 name (List.mem_append_right _ hname)).isName
  refine ⟨ways, hremoved, ?_, hprunes.freed, hprunes.ordered, hprunes.find?, hprunes.current⟩
  rw [hremoved]
  exact List.Nodup.map_on (fun a ha b hb he => pathTo_injective (hway a ha) (hway b hb) he) hprunes.nodup

theorem Clears.all (ht : t.fromRoot.WellFormed) (hlisting : Faithful listing)
    (happroach : Approachable t root (t.keyOf root)) (h : Clears t root ways (cleanUp listing root t)) :
    ClearsAll t root ways (cleanUp listing root t) := by
  obtain ⟨hfailures, hleft⟩ := cleanUp_tidies hlisting ht happroach
  refine ⟨hfailures, fun way hway hdir hfree => ?_⟩
  have hfind := h.find? (t.keyOf root ++ way)
  split at hfind
  · rename_i hmem
    obtain ⟨w, hw, he⟩ := List.mem_map.mp hmem
    rwa [← List.append_cancel_left he]
  · rw [hdir] at hfind
    refine absurd (fun down => ?_) (hleft way hway hfind)
    obtain ⟨_, -, hprunes⟩ := cleanUp_prunes hlisting ht root
    rw [hprunes.fileAt]
    exact hfree down

theorem cleanUp_tidy (ht : t.fromRoot.WellFormed) (hlisting : Faithful listing) (happroach : Approachable t root (t.keyOf root))
    (htidy : ∀ way, way ≠ [] → t.find? (t.keyOf root ++ way) = some .directory → ¬ t.FileFree (t.keyOf root ++ way)) :
    cleanUp listing root t = (.nothing, t) := by
  obtain ⟨ways, hremoved, hprunes⟩ := cleanUp_prunes hlisting ht root
  have hnone : ways = [] := by
    refine List.eq_nil_iff_forall_not_mem.mpr fun way hmem => ?_
    obtain ⟨hway, hdir, hfree⟩ := hprunes.freed way hmem
    exact htidy way hway hdir hfree
  subst hnone
  have hfailures := (cleanUp_tidies hlisting ht happroach).1
  generalize cleanUp listing root t = done at hremoved hprunes hfailures
  obtain ⟨⟨removed, failures⟩, after⟩ := done
  obtain rfl : removed = [] := hremoved
  obtain rfl : failures = [] := hfailures
  cases hprunes
  rfl

/-- Cleaning up once more does nothing, be it in another order. -/
theorem cleanUp_again (ht : t.fromRoot.WellFormed) (hlisting : Faithful listing) (hother : Faithful other)
    (happroach : Approachable t root (t.keyOf root)) :
    cleanUp other root (cleanUp listing root t).2 = (.nothing, (cleanUp listing root t).2) := by
  obtain ⟨ways, -, hprunes⟩ := cleanUp_prunes hlisting ht root
  have hbase := Tree.keyOf_congr hprunes.current root
  refine cleanUp_tidy (hprunes.fromRoot ht) hother ?_ ?_
  · rw [hbase]
    exact happroach.kept hprunes ht
  · rw [hbase]
    exact (cleanUp_tidies hlisting ht happroach).2

-- ---------------------------------------------------------------------------
-- Conversions that clean up
-- ---------------------------------------------------------------------------

def Options.keeping (o : Options) : Options := { o with clean := false }

theorem transfersFrom_keeping (o : Options) (task : String) (index : Nat) (inputs outputs : List Record) :
    o.keeping.transfersFrom task index inputs outputs = o.transfersFrom task index inputs outputs := by
  induction inputs generalizing index outputs with
  | nil => rfl
  | cons input inputs ih =>
    cases outputs with
    | nil => exact congrArg _ (ih (index + 1) [])
    | cons output outputs =>
      unfold Options.transfersFrom
      simp only [ih]
      rfl

theorem task_keeping (o : Options) (m : TaskMatch) : Work.task o.keeping m = Work.task o m := by
  have htransfers : o.keeping.transfers m = o.transfers m := transfersFrom_keeping o m.task 0 m.inputs m.outputs
  unfold Work.task
  rw [htransfers]
  rfl

theorem tasks_keeping (o : Options) (tasks : List TaskMatch) : Work.tasks o.keeping tasks = Work.tasks o tasks := by
  induction tasks with
  | nil => rfl
  | cons m tasks ih =>
    unfold Work.tasks
    rw [task_keeping, ih]

theorem tree_keeping (hok : (apply t o c).result = .ok report) : ∃ p,
    Work.tasks o c.tasks (.start t) = .ok () p ∧ (apply t o.keeping c).tree = p.tree := by
  obtain ⟨p, hwork⟩ := tasks_of_apply hok
  have hcheck : check t o.keeping c = .ok () := (show check t o.keeping c = check t o c from rfl).trans (check_of_ok hok)
  refine ⟨p, hwork, ?_⟩
  rw [apply, hcheck]
  simp only [tasks_keeping, hwork]
  rw [if_neg (by simp [Options.keeping])]

theorem apply_cleans (hok : (apply t o c).result = .ok report) (hclean : o.mode = .move ∧ o.clean) :
    (report.cleanup, (apply t o c).tree) = removeEmptyDirs o.taskDir (apply t o.keeping c).tree := by
  obtain ⟨p, hwork, hkept⟩ := tree_keeping hok
  rw [hkept]
  have hcheck := check_of_ok hok
  unfold apply at hok ⊢
  rw [hcheck] at hok ⊢
  simp only [hwork, if_pos hclean] at hok ⊢
  cases hok
  rfl

/-- The first numbered file keeps its directory from being taken. -/
theorem target_directory (ht : t.WellFormed) (hscan : Task.scan t o.taskDir level = .ok scanned)
    (hevaluate : Detection.evaluate t context ⟨o.infilesOnly, o.workDir⟩ definition scanned = .ok c)
    (hok : (apply t o c).result = .ok report) (hm : m ∈ c.tasks) :
    (apply t o c).tree.find? (t.keyOf (o.targetDir m.task)) = some .directory := by
  have hfound := found_of_evaluate ht hscan hevaluate
  obtain ⟨-, after, hrun, htree⟩ := run_of_ok hok
  have hafter := (hrun.underway_done hfound.underway).wellFormed
  obtain ⟨record, inputs, hinputs⟩ := List.exists_cons_of_ne_nil (Detection.inputs_ne_nil hevaluate m hm)
  have htr : o.transfer m.task true 0 record ∈ transfersOf (script o c.tasks) :=
    hfound.transfer_mem hm (by simp [hinputs]) (by simp)
  obtain ⟨content, hfile⟩ := hrun.target_file hfound.underway htr
  rw [keyOf_target] at hfile
  rw [htree]
  split
  · rw [← removeEmptyDirs_fileAt hafter o.taskDir] at hfile
    exact (removeEmptyDirs_fromRoot hafter.fromRoot _).find?_parent (Tree.fileAt_eq_some_iff.mp hfile)
  · exact hafter.find?_parent (Tree.fileAt_eq_some_iff.mp hfile)

theorem keeping_wellFormed (ht : t.WellFormed) (hscan : Task.scan t o.taskDir level = .ok scanned)
    (hevaluate : Detection.evaluate t context ⟨o.infilesOnly, o.workDir⟩ definition scanned = .ok c)
    (hok : (apply t o c).result = .ok report) : (apply t o.keeping c).tree.WellFormed := by
  obtain ⟨p, hwork, hkept⟩ := tree_keeping hok
  rw [hkept]
  exact ((run_of_tasks hwork).underway_done (found_of_evaluate ht hscan hevaluate).underway).wellFormed

/-- A move that comes to every directory left below its tasks leaves none without files. -/
theorem moved_clear (ht : t.WellFormed) (hscan : Task.scan t o.taskDir level = .ok scanned)
    (hevaluate : Detection.evaluate t context ⟨o.infilesOnly, o.workDir⟩ definition scanned = .ok c)
    (hok : (apply t o c).result = .ok report) (hclean : o.mode = .move ∧ o.clean)
    (happroach : Approachable (apply t o.keeping c).tree o.taskDir base) : report.cleanup.failures = [] ∧
      ∀ way, way ≠ [] → (apply t o c).tree.find? (base ++ way) = some .directory →
        ¬ (apply t o c).tree.FileFree (base ++ way) := by
  have hkept := (keeping_wellFormed ht hscan hevaluate hok).fromRoot
  have hcleaned := apply_cleans hok hclean
  have hcleanup := congrArg Prod.fst hcleaned
  have htree := congrArg Prod.snd hcleaned
  dsimp only at hcleanup htree
  rw [hcleanup, htree]
  exact cleanUp_tidies faithful_directoryNames hkept happroach

/-- Cleaning up takes only directories without files, each once and in an order that fits. If it can come to all of
them it takes them all, and finds nothing to do the next time. So a move that cleans up leaves no directory without
files, and it always leaves its target directories. -/
theorem cleanUp_exactly (ht : t.WellFormed) (hlisting : Faithful listing) (root : String) :
    (∃ ways, Clears t root ways (cleanUp listing root t) ∧
      (Approachable t root (t.keyOf root) → ClearsAll t root ways (cleanUp listing root t) ∧
        ∀ other, Faithful other →
          cleanUp other root (cleanUp listing root t).2 = (.nothing, (cleanUp listing root t).2))) ∧
    ∀ o c report level context definition scanned, o.mode = .move ∧ o.clean →
      Task.scan t o.taskDir level = .ok scanned →
      Detection.evaluate t context ⟨o.infilesOnly, o.workDir⟩ definition scanned = .ok c →
      (apply t o c).result = .ok report →
        (∀ m ∈ c.tasks, (apply t o c).tree.find? (t.keyOf (o.targetDir m.task)) = some .directory) ∧
        (Approachable (apply t o.keeping c).tree o.taskDir (t.keyOf o.taskDir) → report.cleanup.failures = [] ∧
          ∀ way, way ≠ [] → (apply t o c).tree.find? (t.keyOf o.taskDir ++ way) = some .directory →
            ¬ (apply t o c).tree.FileFree (t.keyOf o.taskDir ++ way)) := by
  refine ⟨?_, ?_⟩
  · obtain ⟨ways, hclears⟩ := cleanUp_clears ht.fromRoot hlisting root
    exact ⟨ways, hclears, fun happroach => ⟨hclears.all ht.fromRoot hlisting happroach, fun other hother =>
      cleanUp_again ht.fromRoot hlisting hother happroach⟩⟩
  · intro o c report level context definition scanned hclean hscan hevaluate hok
    exact ⟨fun m hm => target_directory ht hscan hevaluate hok hm, moved_clear ht hscan hevaluate hok hclean⟩

def nestedTasks : Tree :=
  ⟨[(["tasks"], .directory), (["tasks", "d"], .directory), (["tasks", "d", "e"], .directory),
    (["tasks", "d", "e", "a1.in"], .file "1".toUTF8), (["tasks", "d", "e", "x"], .directory),
    (["tasks", "d", "e", "x", "y"], .directory), (["tasks", "d", "f"], .directory),
    (["tasks", "d", "f", "a1.in"], .file "2".toUTF8), (["tasks", "g"], .directory),
    (["tasks", "g", "notes"], .file "3".toUTF8), (["tasks", "k"], .directory)], [], fun _ _ => false⟩

def nestedInputs : Candidate :=
  ⟨"plain", [⟨"d/e", [⟨"a1.in", "", 1, 1⟩], []⟩, ⟨"d/f", [⟨"a1.in", "", 1, 1⟩], []⟩]⟩

def moveNested : Options := ⟨"tasks", "w", .move, true, true, "marks.txt"⟩

theorem nestedTasks_wellFormed : nestedTasks.WellFormed := by decide +kernel

theorem nestedTasks_scan : Task.scan nestedTasks "tasks" 2 = .ok [⟨"d/e", ["a1.in"]⟩, ⟨"d/f", ["a1.in"]⟩] := by
  decide +kernel

theorem nestedTasks_detected : Detection.evaluate nestedTasks .default ⟨true, "w"⟩ prefixScheme
    [⟨"d/e", ["a1.in"]⟩, ⟨"d/f", ["a1.in"]⟩] = .ok nestedInputs := by
  obtain ⟨input, output, hinput, houtput, hmatch⟩ :
      ∃ input output, Pattern.compile .default prefixScheme.input = .ok input ∧
        Pattern.compile .default prefixScheme.output = .ok output ∧
        input.match? "a1.in" = some ⟨"a1.in", "", 1, 1⟩ := ⟨_, _, rfl, rfl, by decide +kernel⟩
  exact Detection.evaluate_matched hinput houtput
    (.cons ⟨Detection.matchTask_single hmatch, by decide +kernel, by decide +kernel⟩
      (.cons ⟨Detection.matchTask_single hmatch, by decide +kernel, by decide +kernel⟩ .nil))

theorem approachable_tasks {t : Tree} (ht : t.WellFormed) (hroot : t.directoryKey "tasks" = .ok ["tasks"])
    (hlimits : ∀ way ∈ t.directoriesBelow ["tasks"], Tree.WithinLimits (pathTo "tasks" way)) :
    Approachable t "tasks" ["tasks"] :=
  approachable_of_no_up ht.fromRoot (by decide +kernel) hroot fun way hway hdir =>
    hlimits way (ht.mem_directoriesBelow.mpr ⟨hway, hdir⟩)

/-- Two tests are moved, and with them go their directories, one with empty ones in it, and the one around both. -/
theorem cleanUp_exactly_nestedTasks :
    (nestedTasks.WellFormed ∧ Faithful Tree.directoryNames ∧ Approachable nestedTasks "tasks" ["tasks"] ∧
      Approachable (apply nestedTasks moveNested.keeping nestedInputs).tree "tasks" ["tasks"]) ∧
    (∃ ways, Clears nestedTasks "tasks" ways (removeEmptyDirs "tasks" nestedTasks) ∧
      ClearsAll nestedTasks "tasks" ways (removeEmptyDirs "tasks" nestedTasks)) ∧
    (removeEmptyDirs "tasks" nestedTasks).1 = ⟨["tasks/d/e/x/y", "tasks/d/e/x", "tasks/k"], []⟩ ∧
    (apply nestedTasks moveNested nestedInputs).result = .ok ⟨2, 2, 0, ["w/d/e/marks.txt", "w/d/f/marks.txt"],
      ⟨["tasks/d/e/x/y", "tasks/d/e/x", "tasks/d/e", "tasks/d/f", "tasks/d", "tasks/k"], []⟩⟩ ∧
    (∀ m ∈ nestedInputs.tasks,
      (apply nestedTasks moveNested nestedInputs).tree.find? (nestedTasks.keyOf (moveNested.targetDir m.task)) =
        some .directory) ∧
    ∀ way, way ≠ [] →
      (apply nestedTasks moveNested nestedInputs).tree.find? (["tasks"] ++ way) = some .directory →
        ¬ (apply nestedTasks moveNested nestedInputs).tree.FileFree (["tasks"] ++ way) := by
  have hdone : (apply nestedTasks moveNested nestedInputs).result = .ok ⟨2, 2, 0, ["w/d/e/marks.txt", "w/d/f/marks.txt"],
      ⟨["tasks/d/e/x/y", "tasks/d/e/x", "tasks/d/e", "tasks/d/f", "tasks/d", "tasks/k"], []⟩⟩ := by decide +kernel
  have hkeeping := keeping_wellFormed (o := moveNested) nestedTasks_wellFormed nestedTasks_scan nestedTasks_detected hdone
  have hbefore := approachable_tasks nestedTasks_wellFormed (by decide +kernel) (by decide +kernel)
  have hafter := approachable_tasks hkeeping (by decide +kernel) (by decide +kernel)
  obtain ⟨⟨ways, hclears, hall⟩, hmoves⟩ := cleanUp_exactly nestedTasks_wellFormed faithful_directoryNames "tasks"
  obtain ⟨htargets, hclear⟩ := hmoves moveNested nestedInputs _ 2 .default prefixScheme _ ⟨rfl, rfl⟩ nestedTasks_scan
    nestedTasks_detected hdone
  have hroot : nestedTasks.keyOf "tasks" = ["tasks"] := by decide +kernel
  rw [show moveNested.taskDir = "tasks" from rfl, hroot] at hclear
  rw [hroot] at hall
  exact ⟨⟨nestedTasks_wellFormed, faithful_directoryNames, hbefore, hafter⟩, ⟨ways, hclears, (hall hbefore).1⟩,
    by decide +kernel, hdone, htargets, (hclear hafter).2⟩

-- ---------------------------------------------------------------------------
-- A root that climbs out of an empty directory
-- ---------------------------------------------------------------------------

def nested : Tree :=
  ((Tree.empty.put ["tasks"] .directory).put ["tasks", "d"] .directory).put ["tasks", "d", "e"] .directory

theorem nested_wellFormed : nested.WellFormed := by decide

/-- Once the inner directory is gone, the outer one can not be read by its path any more. -/
theorem climbing_root_leaves_directory :
    nested.WellFormed ∧ nested.directoryKey "tasks/d/e/../.." = .ok ["tasks"] ∧
    (∀ way, way ≠ [] → nested.find? (["tasks"] ++ way) = some .directory →
      nested.directoryKey (pathTo "tasks/d/e/../.." way) = .ok (["tasks"] ++ way)) ∧
    nested.FileFree ["tasks", "d"] ∧
    (removeEmptyDirs "tasks/d/e/../.." nested).1 =
      ⟨["tasks/d/e/../../d/e"], [("tasks/d/e/../../d", .notFound)]⟩ ∧
    (removeEmptyDirs "tasks/d/e/../.." nested).2.find? ["tasks", "d"] = some .directory := by
  refine ⟨nested_wellFormed, by decide +kernel, fun way hway hdir => ?_, ?_, by decide +kernel, ?_⟩
  · have hmem := nested_wellFormed.mem_directoriesBelow.mpr ⟨hway, hdir⟩
    have hbelow : nested.directoriesBelow ["tasks"] = [["d", "e"], ["d"]] := by decide +kernel
    rw [hbelow] at hmem
    rcases List.mem_cons.mp hmem with rfl | hmem
    · decide +kernel
    · obtain rfl := List.mem_singleton.mp hmem
      decide +kernel
  · exact nested_wellFormed.fileFree rfl (by decide +kernel)
  · have hleft := removeEmptyDirs_fromRoot nested_wellFormed.fromRoot "tasks/d/e/../.."
    have hmem : ["d"] ∈ (removeEmptyDirs "tasks/d/e/../.." nested).2.directoriesBelow ["tasks"] := by decide +kernel
    exact (hleft.mem_directoriesBelow.mp hmem).2

end ContestTests.Conversion
