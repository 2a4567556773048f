import ContestTests.Proofs.Conversion.Accepted
import ContestTests.Proofs.Conversion.Running
import ContestTests.Settings

/-!
# What marks are written over

A conversion refuses to start where a marks file exists, but the place of a marks file is looked at before
its directories are made and its tests are there. So marks are written over a file in two cases: if
they have the name of a numbered file, and if their path goes up out of a directory that is still missing.
-/

namespace ContestTests.Conversion

open ContestTests.Path

variable {t : Tree} {o : Options} {c : Candidate} {m m' : TaskMatch} {tr : Transfer} {key base way : Key}
  {content : ByteArray} {name path : String} {level : Nat} {tasks : List TaskMatch} {deeds : List Deed}

-- ---------------------------------------------------------------------------
-- Copies
-- ---------------------------------------------------------------------------

/-- A copy leaves a file as it was, unless the path of a marks file leads there and goes up out of a directory that was
missing. -/
theorem copy_keeps_files (ht : t.WellFormed) (hcopy : o.mode = .copy) (hfile : t.fileAt key = some content) :
    (apply t o c).tree.fileAt key = some content ∨
      ∃ m ∈ c.tasks, t.keyOf (o.marksPath m) = key ∧ ¬ t.Grounded (o.marksPath m) ∧
        (apply t o c).tree.fileAt key = some (marksContent m) := by
  have hstill : o.mode ≠ .move := by simp [hcopy]
  obtain ⟨deeds, rest, after, -, hrun, htree, -, hfree⟩ := run_of_apply t o c
  have hafter : (apply t o c).tree = after := htree.resolve_right fun h => hstill h.1
  rw [hafter]
  have hway : Underway t o deeds t := ⟨ht, rfl, fun hmove => absurd hmove hstill⟩
  rcases hrun.stays hway hfile fun hmove => absurd hmove hstill with hsame | ⟨m, hm, rfl, hwritable, hthere⟩
  · exact .inl hsame
  · obtain ⟨hmem, hvacant⟩ := hfree m hm
    refine .inr ⟨m, hmem, rfl, fun hgrounded => ?_, hthere⟩
    -- The check before the start would have seen the file.
    rw [hwritable.exists? ht hgrounded hfile] at hvacant
    cases hvacant

theorem copy_keeps_files_twoTasks :
    (twoTasks.WellFormed ∧ (convertTasks .copy "tasks" "w").mode = .copy ∧
      twoTasks.fileAt ["tasks", "a", "10.in"] = some "a9".toUTF8) ∧
      (apply twoTasks (convertTasks .copy "tasks" "w") twoTasksTests).tree.fileAt ["tasks", "a", "10.in"] =
        some "a9".toUTF8 := by
  have hfile : twoTasks.fileAt ["tasks", "a", "10.in"] = some "a9".toUTF8 := rfl
  refine ⟨⟨twoTasks_wellFormed, rfl, hfile⟩, ?_⟩
  have helsewhere : ∀ m ∈ twoTasksTests.tasks,
      twoTasks.keyOf ((convertTasks .copy "tasks" "w").marksPath m) ≠ ["tasks", "a", "10.in"] := by decide +kernel
  rcases copy_keeps_files (o := convertTasks .copy "tasks" "w") (c := twoTasksTests) twoTasks_wellFormed rfl hfile with hsame | ⟨m, hm, hkey, -⟩
  · exact hsame
  · exact absurd hkey (helsewhere m hm)

def copyInto (workDir marksFile : String) : Options := ⟨"tasks", workDir, .copy, false, true, marksFile⟩

theorem evaluate_oneTest : ∃ scanned, Task.scan oneTest "tasks" 0 = .ok scanned ∧
    Detection.evaluate oneTest .default ⟨true, "w"⟩ groupScheme scanned = .ok oneInput :=
  ⟨_, oneTest_scan, oneInput_detected (by decide +kernel)⟩

/-- The marks file leads back into the tasks, by way of a directory that the conversion makes. -/
theorem copy_overwrites_source :
    oneTest.WellFormed ∧
      (∃ scanned, Task.scan oneTest "tasks" 0 = .ok scanned ∧
        Detection.evaluate oneTest .default ⟨true, "w"⟩ groupScheme scanned = .ok oneInput) ∧
      (apply oneTest (copyInto "w" "../tasks/1.in") oneInput).result.isOk ∧
      oneTest.fileAt ["tasks", "1.in"] = some .empty ∧
      (apply oneTest (copyInto "w" "../tasks/1.in") oneInput).tree.fileAt ["tasks", "1.in"] ≠ some .empty := by
  refine ⟨oneTest_wellFormed, evaluate_oneTest, by decide +kernel, rfl, fun h => ?_⟩
  have hsize : ((apply oneTest (copyInto "w" "../tasks/1.in") oneInput).tree.fileAt ["tasks", "1.in"]).map
      ByteArray.size = some 2 := by decide +kernel
  rw [h] at hsize
  cases hsize

-- ---------------------------------------------------------------------------
-- Names of marks files
-- ---------------------------------------------------------------------------

theorem set_marksFile {s s' : Settings} (h : s.set Settings.Key.marksFile.text name = .ok s') :
    name ≠ "" ∧ '/' ∉ name.toList := by
  have hkey : Settings.Key.ofText? Settings.Key.marksFile.text = some .marksFile := rfl
  rw [Settings.set, hkey] at h
  dsimp only at h
  split at h
  · cases h
  · rename_i hvalid
    rw [Settings.objection?] at hvalid
    split at hvalid
    · cases hvalid
    · rename_i hplain
      rw [Bool.or_eq_true, List.any_eq_true, not_or] at hplain
      exact ⟨fun he => hplain.1 (by simp [he]), fun hmem => hplain.2 ⟨'/', hmem, rfl⟩⟩

theorem pieces_of_noSlash (hne : name ≠ "") (hslash : '/' ∉ name.toList) :
    pieces name = [name.toList] ∧ isAbsolute name = false := by
  have hlist : name.toList ≠ [] := fun he => hne (String.toList_eq_nil_iff.mp he)
  refine ⟨?_, ?_⟩
  · rw [pieces, Text.splitOn_of_not_mem hslash]
    simpa using hlist
  · obtain ⟨c, s, hs⟩ := List.exists_cons_of_ne_nil hlist
    have hc : c ≠ '/' := by
      rintro rfl
      exact hslash (by simp [hs])
    simp [isAbsolute, hs, hc]

theorem isName_of_writable {base : String} (hne : name ≠ "") (hslash : '/' ∉ name.toList)
    (h : t.Writable (join base name)) : IsName name := by
  obtain ⟨t', ht', -, hlocate, hdir⟩ := h
  obtain ⟨hpieces, habs⟩ := pieces_of_noSlash hne hslash
  rcases ht'.locate_cases hlocate with hthere | ⟨-, last, -, -, -, hlast⟩
  · exact absurd hthere hdir
  · rw [Tree.stepsOf, pieces_join habs, hpieces, List.map_append, List.map_singleton] at hlast
    split at hlast
    · rw [List.getLast?_concat] at hlast
      cases hlast
    · rw [List.append_nil, List.getLast?_concat] at hlast
      have hmem : name.toList ∈ pieces name := by simp [hpieces]
      obtain ⟨hname, he⟩ := ofPiece_eq_entry hmem (Option.some.inj hlast)
      rwa [String.toList_inj.mp he] at hname

-- ---------------------------------------------------------------------------
-- Converted tests
-- ---------------------------------------------------------------------------

/-- What has been said of the tasks that are converted: where they are and what a detection found in them. -/
structure Found (t : Tree) (o : Options) (level : Nat) (c : Candidate) : Prop where
  wellFormed : t.WellFormed
  distinct : (c.tasks.map TaskMatch.task).Nodup
  placed : ∀ m ∈ c.tasks, ∃ way task, Placed t (t.keyOf o.taskDir) level m way ∧ Detected t o task m

theorem found_of_evaluate {context : Template.Context} {definition : Definition} {scanned : List Task}
    (ht : t.WellFormed) (hscan : Task.scan t o.taskDir level = .ok scanned)
    (hevaluate : Detection.evaluate t context ⟨o.infilesOnly, o.workDir⟩ definition scanned = .ok c) :
    Found t o level c := by
  obtain ⟨base, hroot, -, rfl⟩ := Task.scan_eq_ok ht.fromRoot hscan
  obtain ⟨hlocate, hbase⟩ := Tree.look_eq_ok.mp hroot
  obtain rfl := Tree.locate_eq_ok hlocate
  have hdetected := detected_of_evaluate hevaluate
  exact ⟨ht, tasks_nodup ht hbase hdetected, fun m hm => placed_of_scan ht hbase hdetected hm⟩

namespace Found

theorem source_file (h : Found t o level c) (hm : m ∈ c.tasks) {record : Record} (hr : record ∈ m.inputs ++ m.outputs) :
    ∃ content, t.fileAt (sourceKey t o m.task record) = some content := by
  obtain ⟨way, task, hplaced, -⟩ := h.placed m hm
  obtain ⟨down, hdown, -, hpath, content, hfile⟩ := hplaced.records record hr
  refine ⟨content, Tree.fileAt_eq_some_iff.mpr ?_⟩
  rw [hplaced.sourceKey_eq rfl hdown hpath, hfile]

theorem underway (h : Found t o level c) : Underway t o (script o c.tasks) t := by
  refine ⟨h.wellFormed, rfl, fun _ => ⟨fun tr htr => ?_, ?_⟩⟩
  · rw [transfersOf_script] at htr
    obtain ⟨m, hm, htr⟩ := List.mem_flatMap.mp htr
    obtain ⟨record, hrecord, hsource⟩ := mem_transfers_record htr
    rw [hsource]
    exact h.source_file hm hrecord
  · rw [transfersOf_script]
    have hplaced (m : TaskMatch) (hm : m ∈ c.tasks) : ∃ way, Placed t (t.keyOf o.taskDir) level m way := by
      obtain ⟨way, -, hplaced, -⟩ := h.placed m hm
      exact ⟨way, hplaced⟩
    refine sources_nodup rfl h.distinct hplaced fun m hm => ?_
    obtain ⟨-, task, -, hdetect⟩ := h.placed m hm
    exact hdetect.once

theorem eq_of_targetDir (h : Found t o level c) (hm : m ∈ c.tasks) (hm' : m' ∈ c.tasks)
    (hdir : t.keyOf (o.targetDir m'.task) = t.keyOf (o.targetDir m.task)) : m' = m := by
  obtain ⟨way, -, hplaced, -⟩ := h.placed m hm
  obtain ⟨way', -, hplaced', -⟩ := h.placed m' hm'
  rw [hplaced.keyOf_targetDir, hplaced'.keyOf_targetDir] at hdir
  refine List.inj_on_of_nodup_map h.distinct hm' hm ?_
  rw [hplaced.name, hplaced'.name, List.append_cancel_left hdir]

theorem grounded_marksPath (h : Found t o level c) (hm : m ∈ c.tasks) (hname : IsName o.marksFile) :
    t.Grounded (o.marksPath m) ↔ t.Grounded o.workDir := by
  obtain ⟨way, -, hplaced, -⟩ := h.placed m hm
  rw [Options.marksPath, Tree.grounded_join_name hname, Options.targetDir, hplaced.name,
    Tree.grounded_directory hplaced.isWay]

theorem mem_transfers (h : Found t o level c) (hm : m ∈ c.tasks) {isInput : Bool} {index : Nat} {record : Record}
    (hrecord : (if isInput then m.inputs else m.outputs)[index]? = some record)
    (hboth : isInput = false → o.infilesOnly = false) : o.transfer m.task isInput index record ∈ o.transfers m := by
  cases isInput with
  | true => exact mem_transfersFrom.mpr (.inl ⟨index, record, hrecord, by rw [Nat.zero_add]⟩)
  | false =>
    obtain ⟨-, task, -, hdetect⟩ := h.placed m hm
    obtain ⟨hindex, -⟩ := List.getElem?_eq_some_iff.mp hrecord
    rw [if_neg (by simp), hdetect.paired (hboth rfl)] at hindex
    exact mem_transfersFrom.mpr (.inr ⟨hboth rfl, index, record, hindex, hrecord, by rw [Nat.zero_add]⟩)

end Found

theorem script_at (hm : m ∈ tasks) (htr : tr ∈ o.transfers m) :
    ∃ before after, script o tasks = before ++ .transfer tr :: after ∧ .marks m ∈ after := by
  obtain ⟨first, more, rfl⟩ := List.append_of_mem hm
  obtain ⟨trs, trs', hall⟩ := List.append_of_mem htr
  refine ⟨script o first ++ trs.map .transfer, trs'.map .transfer ++ .marks m :: script o more, ?_, by simp⟩
  simp [script, taskScript, hall]

/-- How the file of a record ends up: as marks if the marks file has the name of its target, and else with its
content, unless marks were written over it before its turn. -/
structure Spared (t : Tree) (o : Options) (c : Candidate) (m : TaskMatch) (isInput : Bool) (index : Nat)
    (record : Record) (t' : Tree) : Prop where
  marked : o.marksFile = Detection.numbered index (extension isInput) →
    t'.fileAt (numberedKey t o m.task index isInput) = some (marksContent m)
  kept : o.marksFile ≠ Detection.numbered index (extension isInput) → ∃ content,
    t.fileAt (sourceKey t o m.task record) = some content ∧
      (t'.fileAt (numberedKey t o m.task index isInput) = some content ∨ ¬ t.Grounded o.workDir ∧
        ∃ m' ∈ c.tasks, t.keyOf (o.marksPath m') = sourceKey t o m.task record ∧
          t'.fileAt (numberedKey t o m.task index isInput) = some (marksContent m'))

theorem Spared.congr {t' t'' : Tree} {isInput : Bool} {index : Nat} {record : Record}
    (h : Spared t o c m isInput index record t') (hfiles : t''.fileAt = t'.fileAt) :
    Spared t o c m isInput index record t'' := by
  refine ⟨?_, ?_⟩
  · rw [hfiles]
    exact h.marked
  · rw [hfiles]
    exact h.kept

theorem Found.marks_eq (h : Found t o level c) (hname : IsName o.marksFile) (hm : m ∈ c.tasks) (hm' : m' ∈ c.tasks)
    {isInput : Bool} {index : Nat} (hkey : t.keyOf (o.marksPath m') = numberedKey t o m.task index isInput) :
    m' = m ∧ o.marksFile = Detection.numbered index (extension isInput) := by
  rw [keyOf_marksPath t hname, numberedKey, Tree.keyOf_join_name t _ (isName_numbered index isInput)] at hkey
  obtain ⟨hdir, hlast⟩ := List.append_inj' hkey rfl
  exact ⟨h.eq_of_targetDir hm hm' hdir, List.singleton_inj.mp hlast⟩

theorem Found.spared (h : Found t o level c) (hname : IsName o.marksFile) {t' : Tree}
    (hrun : Run o t (script o c.tasks) t') (hfree : ∀ m ∈ c.tasks, t.exists? (o.marksPath m) = false)
    (hm : m ∈ c.tasks) {isInput : Bool} {index : Nat} {record : Record}
    (hrecord : (if isInput then m.inputs else m.outputs)[index]? = some record)
    (hboth : isInput = false → o.infilesOnly = false) : Spared t o c m isInput index record t' := by
  have htr := h.mem_transfers hm hrecord hboth
  have hmem : record ∈ m.inputs ++ m.outputs := by
    cases isInput with
    | true => exact List.mem_append_left _ (List.mem_of_getElem? hrecord)
    | false => exact List.mem_append_right _ (List.mem_of_getElem? hrecord)
  obtain ⟨content, hsource⟩ := h.source_file hm hmem
  obtain ⟨before, behind, hscript, hmarks⟩ := script_at hm htr
  have htask {m' : TaskMatch} {deeds : List Deed} (hdeeds : deeds ⊆ script o c.tasks) (hm' : .marks m' ∈ deeds) :
      m' ∈ c.tasks := mem_of_marks (hdeeds hm')
  have hway := h.underway
  rw [hscript] at hrun hway htask
  obtain ⟨t₁, hbefore, hbehind⟩ := hrun.split
  have hway₁ := hbefore.underway hway
  obtain ⟨arrived, hthere, hunmoved, hfinal⟩ := hbehind.arrives hway₁
  rw [keyOf_numbered] at hunmoved hfinal
  refine ⟨fun hnumbered => ?_, fun hnumbered => ⟨content, hsource, ?_⟩⟩
  · -- The marks of the task come behind its tests.
    have hkey : t.keyOf (o.marksPath m) = numberedKey t o m.task index isInput := by
      rw [Options.marksPath, hnumbered, numberedKey]
    have hover := (hbehind.marked hway₁ (List.mem_cons_of_mem _ hmarks)).2
    rw [hkey] at hover
    obtain ⟨m', hm', hkey', -, hlast⟩ := hover hunmoved
    rwa [(h.marks_eq hname hm (htask (List.subset_append_right _ _) hm') hkey').1] at hlast
  · have hlast : t'.fileAt (numberedKey t o m.task index isInput) = some arrived := by
      rcases hfinal with hsame | ⟨m', hm', hkey', -⟩
      · exact hsame
      · have hm' := htask (List.subset_append_right _ _) (List.mem_cons_of_mem _ hm')
        exact absurd (h.marks_eq hname hm hm' hkey').2 hnumbered
    rw [hlast]
    rw [keyOf_source] at hthere
    have hstill : Unmoved t o before (sourceKey t o m.task record) := by
      intro hmove tr' htr'
      have hdistinct := (hway.movable hmove).distinct
      rw [transfersOf_append, List.map_append] at hdistinct
      exact (List.nodup_append.mp hdistinct).2.2 _ (List.mem_map_of_mem htr') _ List.mem_cons_self
    rcases hbefore.stays hway.first hsource hstill with hsame | ⟨m', hm', hkey', hwritable, hmarked⟩
    · rw [hthere] at hsame
      exact .inl hsame
    · have hm' := htask (List.subset_append_left _ _) hm'
      refine .inr ⟨fun hgrounded => ?_, m', hm', hkey', hthere.symm.trans hmarked⟩
      -- The check before the start would have seen the record.
      have hexists := hwritable.exists? h.wellFormed ((h.grounded_marksPath hm' hname).mpr hgrounded) (hkey' ▸ hsource)
      rw [hfree m' hm'] at hexists
      cases hexists

/-- With a marks file that the settings take, a conversion that ends well leaves every numbered file with the content of
its record, except where the marks file has its name, or where the directory for the output goes up out
of one that was missing. -/
theorem converted_tests_spared {s s' : Settings} {context : Template.Context} {definition : Definition}
    {scanned : List Task} {report : Report} (ht : t.WellFormed)
    (hset : s.set Settings.Key.marksFile.text o.marksFile = .ok s')
    (hscan : Task.scan t o.taskDir level = .ok scanned)
    (hevaluate : Detection.evaluate t context ⟨o.infilesOnly, o.workDir⟩ definition scanned = .ok c)
    (hok : (apply t o c).result = .ok report) :
    ∀ m ∈ c.tasks, ∀ isInput index record, (if isInput then m.inputs else m.outputs)[index]? = some record →
      (isInput = false → o.infilesOnly = false) → Spared t o c m isInput index record (apply t o c).tree := by
  have hfound := found_of_evaluate ht hscan hevaluate
  obtain ⟨hne, hslash⟩ := set_marksFile hset
  obtain ⟨deeds, rest, after, hscript, hrun, htree, hall, hfree⟩ := run_of_apply t o c
  obtain rfl := hall report hok
  rw [List.append_nil] at hscript
  subst hscript
  have hway := hfound.underway
  have hfiles : (apply t o c).tree.fileAt = after.fileAt := by
    rcases htree with he | ⟨-, he⟩
    · rw [he]
    · have hafter : Underway t o [] after := hrun.underway (by rwa [List.append_nil])
      rw [he, removeEmptyDirs_fileAt hafter.wellFormed]
  intro m hm isInput index record hrecord hboth
  have hname : IsName o.marksFile := isName_of_writable hne hslash (hrun.marked hway (Ready.marks_mem_script o hm)).1
  exact (hfound.spared hname hrun (fun m hm => (hfree m (Ready.marks_mem_script o hm)).2) hm hrecord hboth).congr hfiles

theorem converted_tests_spared_twoTasks :
    (twoTasks.WellFormed ∧ (∃ s', Settings.default.set Settings.Key.marksFile.text "marks.txt" = .ok s') ∧
      Task.scan twoTasks "tasks" 1 = .ok twoTasksListed ∧
      Detection.evaluate twoTasks .default ⟨false, "w"⟩ groupScheme twoTasksListed = .ok twoTasksTests ∧
      (apply twoTasks (convertTasks .move "tasks" "w") twoTasksTests).result.isOk) ∧
      (apply twoTasks (convertTasks .move "tasks" "w") twoTasksTests).tree.fileAt ["w", "a", "10.out"] =
        some "a9\n".toUTF8 := by
  obtain ⟨s', hset⟩ : ∃ s', Settings.default.set Settings.Key.marksFile.text "marks.txt" = .ok s' := ⟨_, rfl⟩
  obtain ⟨⟨report, hok⟩, -⟩ := converts_of_pathable (twoTasks_accepted .move) (twoTasks_pathable .move)
  refine ⟨⟨twoTasks_wellFormed, ⟨s', hset⟩, twoTasks_scan, evaluate_twoTasks, isOk_iff.mpr ⟨report, hok⟩⟩, ?_⟩
  have hspared := @converted_tests_spared twoTasks (convertTasks .move "tasks" "w") twoTasksTests 1 _ _ _ _ _ _
    twoTasks_wellFormed hset twoTasks_scan evaluate_twoTasks hok _ List.mem_cons_self false 9 _ rfl fun _ => rfl
  obtain ⟨content, hsource, hkept⟩ := hspared.kept (by decide)
  cases hsource
  exact hkept.resolve_right fun h => h.1 (Tree.grounded_of_no_up (by decide))

/-- The marks file has the name of the first test. -/
theorem marks_replace_test :
    oneTest.WellFormed ∧ (∃ s', Settings.default.set Settings.Key.marksFile.text "1.in" = .ok s') ∧
      (∃ scanned, Task.scan oneTest "tasks" 0 = .ok scanned ∧
        Detection.evaluate oneTest .default ⟨true, "w"⟩ groupScheme scanned = .ok oneInput) ∧
      (apply oneTest (moveInto "w" "1.in") oneInput).result.isOk ∧
      oneTest.fileAt ["tasks", "1.in"] = some .empty ∧
      (apply oneTest (moveInto "w" "1.in") oneInput).tree.fileAt ["w", "1.in"] ≠ some .empty := by
  refine ⟨oneTest_wellFormed, ⟨_, rfl⟩, evaluate_oneTest, by decide +kernel, rfl, fun h => ?_⟩
  have hsize : ((apply oneTest (moveInto "w" "1.in") oneInput).tree.fileAt ["w", "1.in"]).map ByteArray.size = some 2 := by
    decide +kernel
  rw [h] at hsize
  cases hsize

end ContestTests.Conversion
