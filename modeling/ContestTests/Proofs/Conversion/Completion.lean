import ContestTests.Proofs.Conversion.Progress
import ContestTests.Proofs.Tree.Reach
import Mathlib.Data.List.Nodup

/-!
# Conversions that run through

A conversion is ready if its sources are different files, nothing stands at its targets, and no file is
in the way of its directories. Then no step fails: what was ready at the start still is when its turn
comes.
-/

namespace ContestTests.Conversion

open ContestTests.Path
open ContestTests.Task (pathTo)

variable {t t₁ : Tree} {o : Options} {tasks : List TaskMatch} {m : TaskMatch} {tr : Transfer} {deed : Deed}
  {deeds : List Deed} {p : Progress} {level : Nat} {key : Key} {files files' : Key → Option ByteArray}
  {content : ByteArray}

/-- What a conversion needs to run through. -/
structure Ready (t : Tree) (o : Options) (level : Nat) (tasks : List TaskMatch) : Prop where
  wellFormed : t.WellFormed
  arranged : Arranged o tasks
  noUp : .up ∉ Path.components o.workDir
  /-- All tasks are equally deep. -/
  depth : ∀ m ∈ tasks, (t.keyOf (o.targetDir m.task)).length = (t.keyOf o.workDir).length + level
  sources : ∀ tr ∈ tasks.flatMap o.transfers, ∃ content, t.look tr.source = .ok (t.keyOf tr.source, .file content)
  distinct : ((tasks.flatMap o.transfers).map fun tr => t.keyOf tr.source).Nodup
  vacant : ∀ deed ∈ script o tasks, t.exists? (deed.target o) = false
  unblocked : ∀ m ∈ tasks, t.Unblocked (t.keyOf (o.targetDir m.task))
  /-- A directory to be made is not named by a dot. -/
  named : ∀ m ∈ tasks, t.find? (t.keyOf (o.targetDir m.task)) ≠ some .directory →
    (Path.pieces (o.targetDir m.task)).getLast? ≠ some ['.']
  limits : ∀ deed ∈ script o tasks, Tree.WithinLimits (deed.target o)

namespace Ready

theorem target (h : Ready t o level tasks) (hdeed : deed ∈ script o tasks) : ∃ m ∈ tasks, ∃ name, IsName name ∧
    deed.target o = Path.join (o.targetDir m.task) name ∧
      t.keyOf (deed.target o) = t.keyOf (o.targetDir m.task) ++ [name] := by
  obtain ⟨m, hm, hdeed⟩ := List.mem_flatMap.mp hdeed
  obtain ⟨name, hname, htarget⟩ := taskScript_target h.arranged.marksName hdeed
  exact ⟨m, hm, name, hname, htarget, by rw [htarget, Tree.keyOf_join_name t _ hname]⟩

theorem target_vacant (h : Ready t o level tasks) (hdeed : deed ∈ script o tasks) :
    t.find? (t.keyOf (deed.target o)) = none := by
  obtain ⟨m, hm, name, hname, htarget, hkey⟩ := h.target hdeed
  have hlimits := h.limits deed hdeed
  have hfree := h.vacant deed hdeed
  rw [htarget] at hlimits hfree
  rw [hkey]
  exact Tree.find?_of_not_exists h.wellFormed hlimits (up_not_mem_targetDir h.arranged h.noUp hm) hname hfree

theorem target_not_above (h : Ready t o level tasks) (hdeed : deed ∈ script o tasks) (hm : m ∈ tasks) :
    ¬ t.keyOf (deed.target o) <+: t.keyOf (o.targetDir m.task) := by
  obtain ⟨m', hm', name, -, -, hkey⟩ := h.target hdeed
  intro hdown
  have hlength := hdown.length_le
  rw [hkey, List.length_append, h.depth m' hm', h.depth m hm, List.length_singleton] at hlength
  omega

theorem mem_script (htr : tr ∈ tasks.flatMap o.transfers) : .transfer tr ∈ script o tasks := by
  obtain ⟨m, hm, htr⟩ := List.mem_flatMap.mp htr
  exact List.mem_flatMap.mpr ⟨m, hm, mem_taskScript.mpr (.inl ⟨tr, htr, rfl⟩)⟩

theorem marks_mem_script (o : Options) (hm : m ∈ tasks) : .marks m ∈ script o tasks :=
  List.mem_flatMap.mpr ⟨m, hm, mem_taskScript.mpr (.inr rfl)⟩

theorem mem_transfers (htr : .transfer tr ∈ script o tasks) : tr ∈ tasks.flatMap o.transfers := by
  rw [← transfersOf_script]
  exact mem_transfersOf.mpr htr

theorem source_file (h : Ready t o level tasks) (htr : tr ∈ tasks.flatMap o.transfers) :
    ∃ content, t.fileAt (t.keyOf tr.source) = some content := by
  obtain ⟨content, hlook⟩ := h.sources tr htr
  exact ⟨content, Tree.fileAt_eq_some_iff.mpr (Tree.look_eq_ok.mp hlook).2⟩

theorem target_ne_source (h : Ready t o level tasks) (hdeed : deed ∈ script o tasks)
    (htr : tr ∈ tasks.flatMap o.transfers) : t.keyOf (deed.target o) ≠ t.keyOf tr.source := by
  intro he
  obtain ⟨content, hfile⟩ := h.source_file htr
  rw [← he, Tree.fileAt, h.target_vacant hdeed] at hfile
  cases hfile

theorem marks_free (h : Ready t o level tasks) (hm : m ∈ tasks) : t.exists? (o.marksPath m) = false :=
  h.vacant (.marks m) (marks_mem_script o hm)

theorem noDirectory (h : Ready t o level tasks) (htr : tr ∈ tasks.flatMap o.transfers) : NoDirectory t o tasks tr := by
  obtain ⟨content, hlook⟩ := h.sources tr htr
  have hfind := (Tree.look_eq_ok.mp hlook).2
  refine ⟨fun hdir => ?_, fun m hm hdown => h.unblocked m hm _ hdown content hfind⟩
  rw [hfind] at hdir
  cases hdir

theorem noDirectories (h : Ready t o level tasks) (hm : m ∈ tasks) : ∀ tr ∈ o.transfers m, NoDirectory t o tasks tr :=
  fun _ htr => h.noDirectory (List.mem_flatMap.mpr ⟨m, hm, htr⟩)

end Ready

-- ---------------------------------------------------------------------------
-- In the middle of a run
-- ---------------------------------------------------------------------------

theorem Along.noFile (h : Ready t o level tasks) (halong : Along t o tasks deeds p) (hdeeds : deeds <+: script o tasks)
    (hm : m ∈ tasks) (hdown : key <+: t.keyOf (o.targetDir m.task)) : p.tree.fileAt key = none := by
  refine halong.performed.eq_none ?_ fun deed hdeed he => ?_
  · cases hfile : t.fileAt key with
    | none => rfl
    | some content => exact absurd (Tree.fileAt_eq_some_iff.mp hfile) (h.unblocked m hm key hdown content)
  · exact h.target_not_above (hdeeds.mem hdeed) hm (he ▸ hdown)

theorem Along.vacant (h : Ready t o level tasks) (halong : Along t o tasks deeds p)
    (hscript : deeds ++ [deed] <+: script o tasks) : p.tree.find? (t.keyOf (deed.target o)) = none := by
  have hdeed : deed ∈ script o tasks := hscript.mem (List.mem_append_right _ List.mem_cons_self)
  have hnone := h.target_vacant hdeed
  have hfile : p.tree.fileAt (t.keyOf (deed.target o)) = none :=
    halong.performed.eq_none (by rw [Tree.fileAt, hnone]; rfl) (target_fresh t h.arranged hscript)
  cases hfind : p.tree.find? (t.keyOf (deed.target o)) with
  | none => rfl
  | some entry =>
    cases entry with
    | file content =>
      rw [Tree.fileAt, hfind] at hfile
      cases hfile
    | directory =>
      rcases halong.directories _ hfind with hdir | ⟨m, hm, hdown⟩
      · rw [hnone] at hdir
        cases hdir
      · exact absurd hdown (h.target_not_above hdeed hm)

theorem Along.source (h : Ready t o level tasks) (halong : Along t o tasks deeds p) (hkeeps : t.Keeps p.tree)
    (hscript : deeds ++ [.transfer tr] <+: script o tasks) :
    ∃ content, p.tree.look tr.source = .ok (t.keyOf tr.source, .file content) := by
  have htr := Ready.mem_transfers (hscript.mem (List.mem_append_right _ List.mem_cons_self))
  obtain ⟨content, hlook⟩ := h.sources tr htr
  obtain ⟨hlocate, hfind⟩ := Tree.look_eq_ok.mp hlook
  have hdeeds : deeds <+: script o tasks := (List.prefix_append _ _).trans hscript
  -- No transfer before has the same source.
  have hfresh : ∀ tr' ∈ transfersOf deeds, t.keyOf tr'.source ≠ t.keyOf tr.source := by
    have hplan := (hscript.filterMap Deed.transfer?).sublist
    have hnodup := List.Nodup.sublist (hplan.map fun tr => t.keyOf tr.source) (by
      rw [← transfersOf, transfersOf_script]
      exact h.distinct)
    rw [List.filterMap_append, List.map_append] at hnodup
    exact fun tr' htr' => (List.nodup_append.mp hnodup).2.2 _ (List.mem_map_of_mem htr') _ List.mem_cons_self
  have hstays := halong.performed.stays
    (fun deed hdeed => h.target_ne_source (hdeeds.mem hdeed) htr) fun _ => hfresh
  refine ⟨content, Tree.look_eq_ok.mpr ⟨Tree.locate_of_keeps halong.current hkeeps hlocate, ?_⟩⟩
  rw [← Tree.fileAt_eq_some_iff, hstays, Tree.fileAt_eq_some_iff, hfind]

-- ---------------------------------------------------------------------------
-- No step fails
-- ---------------------------------------------------------------------------

namespace Ready

variable {ds : List Deed} {more : List TaskMatch} {trs : List Transfer}

theorem ensureDir_ok (h : Ready t o level tasks) (halong : Along t o tasks deeds p) (hdeeds : deeds <+: script o tasks)
    (hkeeps : t.Keeps p.tree) (hm : m ∈ tasks) : ∃ p', Work.ensureDir (o.targetDir m.task) p = .ok () p' ∧
      p'.tree.find? (t.keyOf (o.targetDir m.task)) = some .directory := by
  have hkey : p.tree.keyOf (o.targetDir m.task) = t.keyOf (o.targetDir m.task) := Tree.keyOf_congr halong.current _
  have hfree : p.tree.Unblocked (p.tree.keyOf (o.targetDir m.task)) := by
    intro key hdown content hfile
    rw [hkey] at hdown
    have hnone := halong.noFile h hdeeds hm hdown
    rw [Tree.fileAt_eq_some_iff.mpr hfile] at hnone
    cases hnone
  rw [Work.ensureDir]
  split
  · rename_i hexists
    refine ⟨p, rfl, ?_⟩
    obtain ⟨entry, -, hfind⟩ := Tree.exists?_iff.mp hexists
    rw [← hkey]
    cases entry with
    | directory => exact hfind
    | file content => exact absurd hfind (hfree _ List.prefix_rfl content)
  · have hmade : ∃ t', Action.createDirs (o.targetDir m.task) p.tree = .ok () t' ∧
        t'.find? (t.keyOf (o.targetDir m.task)) = some .directory := by
      by_cases hempty : o.targetDir m.task = ""
      · refine ⟨p.tree, ?_, ?_⟩
        · rw [hempty]
          rfl
        · rw [hempty]
          show p.tree.find? t.current = _
          rw [← halong.current]
          exact halong.wellFormed.current
      · have hup := up_not_mem_targetDir h.arranged h.noUp hm
        have hlimits : Tree.WithinLimits (o.targetDir m.task) := by
          refine Tree.WithinLimits.of_join ?_ h.arranged.marksName.isAbsolute hempty
          exact h.limits (.marks m) (marks_mem_script o hm)
        rw [← hkey]
        refine Tree.createDirs_ok halong.wellFormed hlimits hup hfree fun hmissing => h.named m hm fun hdir => ?_
        rw [hkey] at hmissing
        exact hmissing (hkeeps _ hdir)
    obtain ⟨t', hmake, hdir⟩ := hmade
    exact ⟨{ p with tree := t' }, by rw [Work.ofAction, hmake], hdir⟩

theorem locate_target (h : Ready t o level tasks) (halong : Along t o tasks deeds p) (hm : m ∈ tasks)
    (hdeed : deed ∈ taskScript o m) (hdir : p.tree.find? (t.keyOf (o.targetDir m.task)) = some .directory) :
    p.tree.locate (deed.target o) = .ok (p.tree.keyOf (deed.target o)) := by
  obtain ⟨name, hname, htarget⟩ := taskScript_target h.arranged.marksName hdeed
  have hlimits := h.limits deed (List.mem_flatMap.mpr ⟨m, hm, hdeed⟩)
  rw [htarget] at hlimits ⊢
  rw [Tree.keyOf_join_name p.tree _ hname]
  refine Tree.locate_join_name halong.wellFormed hlimits (up_not_mem_targetDir h.arranged h.noUp hm) hname ?_
  rwa [Tree.keyOf_congr halong.current]

theorem transfer_ok (h : Ready t o level tasks) (halong : Along t o tasks deeds p) (hkeeps : t.Keeps p.tree)
    (hscript : deeds ++ [.transfer tr] <+: script o tasks) (hm : m ∈ tasks) (htr : tr ∈ o.transfers m)
    (hdir : p.tree.find? (t.keyOf (o.targetDir m.task)) = some .directory) :
    ∃ p', Work.transfer o.mode tr p = .ok () p' := by
  have hkey (path : String) : p.tree.keyOf path = t.keyOf path := Tree.keyOf_congr halong.current path
  obtain ⟨content, hlook⟩ := halong.source h hkeeps hscript
  have hlocate := h.locate_target halong hm (mem_taskScript.mpr (.inl ⟨tr, htr, rfl⟩)) hdir
  have hvacant := halong.vacant h hscript
  rw [← hkey] at hlook hvacant
  rw [Deed.target_transfer] at hlocate hvacant
  have hcopy : p.tree.copyFile tr.source tr.target = .ok (p.tree.put (p.tree.keyOf tr.target) (.file content)) := by
    rw [Tree.copyFile, hlook]
    simp only [bind, Except.bind, Tree.write, hlocate, hvacant]
  have htransfer (mode : TransferMode) : ∃ t', transferFile mode tr.source tr.target p.tree = .ok () t' :=
    transferFile_ok (Tree.not_exists_of_find? hvacant) hcopy
  obtain ⟨t', ht'⟩ := htransfer o.mode
  exact ⟨_, by rw [Work.transfer, ht']⟩

theorem transferAll_ok (h : Ready t o level tasks) (halong : Along t o tasks deeds p) (hkeeps : t.Keeps p.tree)
    (hscript : deeds ++ trs.map .transfer <+: script o tasks) (hm : m ∈ tasks) (htrs : ∀ tr ∈ trs, tr ∈ o.transfers m)
    (hdir : p.tree.find? (t.keyOf (o.targetDir m.task)) = some .directory) :
    ∃ p', Work.transferAll o.mode trs p = .ok () p' := by
  induction trs generalizing deeds p with
  | nil => exact ⟨p, rfl⟩
  | cons tr trs ih =>
    obtain ⟨htr, htrs⟩ := List.forall_mem_cons.mp htrs
    rw [List.map_cons, List.append_cons] at hscript
    have hnext := (List.prefix_append _ _).trans hscript
    obtain ⟨p₁, hp₁⟩ := h.transfer_ok halong hkeeps hnext hm htr hdir
    have hsource := h.noDirectory (List.mem_flatMap.mpr ⟨m, hm, htr⟩)
    obtain ⟨halong₁, hkeeps₁⟩ := (follows_transfer hsource deeds p hnext halong).1 p₁ hp₁
    obtain ⟨p', hp'⟩ := ih halong₁ (hkeeps.trans hkeeps₁) hscript htrs (hkeeps₁ _ hdir)
    exact ⟨p', stateBind_eq_ok.mpr ⟨(), p₁, hp₁, hp'⟩⟩

theorem writeMarks_ok (h : Ready t o level tasks) (halong : Along t o tasks deeds p)
    (hscript : deeds ++ [.marks m] <+: script o tasks) (hm : m ∈ tasks)
    (hdir : p.tree.find? (t.keyOf (o.targetDir m.task)) = some .directory) :
    ∃ p', Work.writeMarks o m p = .ok () p' := by
  have hlocate := h.locate_target halong hm (mem_taskScript.mpr (.inr rfl)) hdir
  have hvacant := halong.vacant h hscript
  rw [← Tree.keyOf_congr halong.current] at hvacant
  rw [Deed.target_marks] at hlocate hvacant
  have hwrite : p.tree.write (o.marksPath m) (marksContent m) =
      .ok (p.tree.put (p.tree.keyOf (o.marksPath m)) (.file (marksContent m))) := by
    rw [Tree.write, hlocate]
    simp only [hvacant]
  exact ⟨_, Conversion.writeMarks_ok hwrite⟩

theorem task_ok (h : Ready t o level tasks) (halong : Along t o tasks deeds p) (hkeeps : t.Keeps p.tree)
    (hscript : deeds ++ taskScript o m <+: script o tasks) (hm : m ∈ tasks) :
    ∃ p', Work.task o m p = .ok () p' ∧ p'.tree.find? (t.keyOf (o.targetDir m.task)) = some .directory := by
  have hdeeds : deeds <+: script o tasks := (List.prefix_append _ _).trans hscript
  have hup := up_not_mem_targetDir h.arranged h.noUp hm
  obtain ⟨p₁, hp₁, hdir⟩ := h.ensureDir_ok halong hdeeds hkeeps hm
  obtain ⟨halong₁, hkeeps₁⟩ := (follows_ensureDir hm hup deeds p (by rwa [List.append_nil]) halong).1 p₁ hp₁
  rw [List.append_nil] at halong₁
  rw [taskScript, ← List.append_assoc] at hscript
  have hfirst := (List.prefix_append _ _).trans hscript
  obtain ⟨p₂, hp₂⟩ := h.transferAll_ok halong₁ (hkeeps.trans hkeeps₁) hfirst hm (fun tr htr => htr) hdir
  obtain ⟨halong₂, hkeeps₂⟩ := (follows_transferAll (h.noDirectories hm) deeds p₁ hfirst halong₁).1 p₂ hp₂
  have hdir₂ := hkeeps₂ _ hdir
  obtain ⟨p', hp'⟩ := h.writeMarks_ok halong₂ hscript hm hdir₂
  have hmarks := follows_writeMarks h.wellFormed h.arranged (Tree.up_not_mem_join_name h.arranged.marksName hup)
    (h.marks_free hm)
  obtain ⟨-, hkeeps'⟩ := (hmarks _ p₂ hscript halong₂).1 p' hp'
  have hrest : (Work.transferAll o.mode (o.transfers m) >>= fun _ => Work.writeMarks o m) p₁ = .ok () p' :=
    stateBind_eq_ok.mpr ⟨(), p₂, hp₂, hp'⟩
  exact ⟨p', stateBind_eq_ok.mpr ⟨(), p₁, hp₁, hrest⟩, hkeeps' _ hdir₂⟩

theorem tasks_ok (h : Ready t o level tasks) (halong : Along t o tasks deeds p) (hkeeps : t.Keeps p.tree)
    (hscript : deeds ++ script o more <+: script o tasks) (hmore : ∀ m ∈ more, m ∈ tasks) :
    ∃ p', Work.tasks o more p = .ok () p' ∧ p.tree.Keeps p'.tree ∧
      ∀ m ∈ more, p'.tree.find? (t.keyOf (o.targetDir m.task)) = some .directory := by
  induction more generalizing deeds p with
  | nil => exact ⟨p, rfl, .refl _, by simp⟩
  | cons m more ih =>
    obtain ⟨hm, hmore⟩ := List.forall_mem_cons.mp hmore
    rw [script, List.flatMap_cons, ← List.append_assoc] at hscript
    have hfirst := (List.prefix_append _ _).trans hscript
    have hfollows := follows_task h.wellFormed h.arranged h.noUp hm (h.noDirectories hm) (h.marks_free hm)
    obtain ⟨p₁, hp₁, hdir⟩ := h.task_ok halong hkeeps hfirst hm
    obtain ⟨halong₁, hkeeps₁⟩ := (hfollows deeds p hfirst halong).1 p₁ hp₁
    obtain ⟨p', hp', hkeeps', hdirs⟩ := ih halong₁ (hkeeps.trans hkeeps₁) hscript hmore
    refine ⟨p', stateBind_eq_ok.mpr ⟨(), p₁, hp₁, hp'⟩, hkeeps₁.trans hkeeps', ?_⟩
    exact List.forall_mem_cons.mpr ⟨hkeeps' _ hdir, hdirs⟩

end Ready

-- ---------------------------------------------------------------------------
-- What is there in the end
-- ---------------------------------------------------------------------------

/-- What a whole conversion does to the files. -/
structure Converted (t : Tree) (o : Options) (tasks : List TaskMatch) (files files' : Key → Option ByteArray) : Prop where
  transferred : ∀ tr ∈ tasks.flatMap o.transfers, ∃ content, files (t.keyOf tr.source) = some content ∧
    files' (t.keyOf tr.target) = some content
  marks : ∀ m ∈ tasks, files' (t.keyOf (o.marksPath m)) = some (marksContent m)
  moved : o.mode = .move → ∀ tr ∈ tasks.flatMap o.transfers, files' (t.keyOf tr.source) = none
  stays : ∀ key, (∀ deed ∈ script o tasks, t.keyOf (deed.target o) ≠ key) →
    (o.mode = .move → ∀ tr ∈ tasks.flatMap o.transfers, t.keyOf tr.source ≠ key) → files' key = files key

namespace Ready

variable {before after : List Deed}

theorem target_unique (h : Ready t o level tasks) (hsplit : script o tasks = before ++ deed :: after) :
    ∀ other ∈ before ++ after, t.keyOf (other.target o) ≠ t.keyOf (deed.target o) := by
  have hnodup := script_targets_nodup t h.arranged
  rw [hsplit, List.map_append, List.map_cons, List.nodup_middle, List.nodup_cons] at hnodup
  intro other hother he
  rw [← List.map_append, ← he] at hnodup
  exact hnodup.1 (List.mem_map_of_mem hother)

theorem source_unique (h : Ready t o level tasks) (hsplit : script o tasks = before ++ .transfer tr :: after) :
    ∀ other ∈ transfersOf (before ++ after), t.keyOf other.source ≠ t.keyOf tr.source := by
  have hnodup := h.distinct
  have hplan : tasks.flatMap o.transfers = transfersOf before ++ tr :: transfersOf after := by
    rw [← transfersOf_script, hsplit, transfersOf_append]
    rfl
  rw [hplan, List.map_append, List.map_cons, List.nodup_middle, List.nodup_cons] at hnodup
  intro other hother he
  rw [transfersOf_append] at hother
  rw [← List.map_append, ← he] at hnodup
  exact hnodup.1 (List.mem_map_of_mem hother)

/-- Every deed of the script finds things as they were at the start, and leaves what is there in the end. -/
theorem converted (h : Ready t o level tasks) (hperformed : Performed t o (script o tasks) t.fileAt files') :
    Converted t o tasks t.fileAt files' := by
  have htransfer (tr : Transfer) (htr : tr ∈ tasks.flatMap o.transfers) :
      (∃ content, t.fileAt (t.keyOf tr.source) = some content ∧ files' (t.keyOf tr.target) = some content) ∧
        (o.mode = .move → files' (t.keyOf tr.source) = none) := by
    obtain ⟨before, after, hsplit⟩ := List.append_of_mem (mem_script htr)
    have htargets := h.target_unique hsplit
    rw [Deed.target_transfer] at htargets
    have hsources := h.source_unique hsplit
    have hdifferent {other : Transfer} (hother : other ∈ tasks.flatMap o.transfers) :
        t.keyOf tr.target ≠ t.keyOf other.source := by
      have hne := h.target_ne_source (mem_script htr) hother
      rwa [Deed.target_transfer] at hne
    have hbefore : ∀ deed ∈ before, deed ∈ script o tasks := fun deed hdeed => by simp [hsplit, hdeed]
    have hafter : ∀ deed ∈ after, deed ∈ script o tasks := fun deed hdeed => by simp [hsplit, hdeed]
    rw [transfersOf_append] at hsources
    rw [hsplit] at hperformed
    obtain ⟨files₁, hfirst, content, hsource, htarget, hrest⟩ := hperformed.split
    have hinitial : files₁ (t.keyOf tr.source) = t.fileAt (t.keyOf tr.source) :=
      hfirst.stays (fun deed hdeed => h.target_ne_source (hbefore deed hdeed) htr)
        fun _ other hother => hsources other (List.mem_append_left _ hother)
    have hput : files' (t.keyOf tr.target) = transferred o.mode (t.keyOf tr.source) (t.keyOf tr.target) content files₁
        (t.keyOf tr.target) := by
      refine hrest.stays (fun deed hdeed => htargets deed (List.mem_append_right _ hdeed)) fun _ other hother => ?_
      exact (hdifferent (mem_transfers (hafter _ (mem_transfersOf.mp hother)))).symm
    have htaken (hmove : o.mode = .move) : transferred o.mode (t.keyOf tr.source) (t.keyOf tr.target) content files₁
        (t.keyOf tr.source) = none := by
      rw [transferred, if_neg (hdifferent htr).symm, if_pos ⟨hmove, rfl⟩]
    exact ⟨⟨content, hinitial ▸ hsource, hput.trans (if_pos rfl)⟩, fun hmove =>
      hrest.eq_none (htaken hmove) fun deed hdeed => h.target_ne_source (hafter deed hdeed) htr⟩
  refine ⟨fun tr htr => (htransfer tr htr).1, fun m hm => ?_, fun hmove tr htr => (htransfer tr htr).2 hmove,
    fun key htarget hsource => hperformed.stays htarget (by rwa [transfersOf_script])⟩
  obtain ⟨before, after, hsplit⟩ := List.append_of_mem (marks_mem_script o hm)
  have htargets := h.target_unique hsplit
  have hafter : ∀ deed ∈ after, deed ∈ script o tasks := fun deed hdeed => by simp [hsplit, hdeed]
  rw [hsplit] at hperformed
  obtain ⟨files₁, -, -, hrest⟩ := hperformed.split
  have hput : files' (t.keyOf (o.marksPath m)) = filled (t.keyOf (o.marksPath m)) (marksContent m) files₁
      (t.keyOf (o.marksPath m)) := by
    rw [Deed.target_marks] at htargets
    refine hrest.stays (fun deed hdeed => htargets deed (List.mem_append_right _ hdeed)) fun _ other hother => ?_
    have hne := h.target_ne_source (marks_mem_script o hm) (mem_transfers (hafter _ (mem_transfersOf.mp hother)))
    rw [Deed.target_marks] at hne
    exact hne.symm
  exact hput.trans (if_pos rfl)

end Ready

variable {base : Key}

/-- A directory was there, or a task needs it. -/
def Wanted (t : Tree) (o : Options) (tasks : List TaskMatch) (key : Key) : Prop :=
  t.find? key = some .directory ∨ ∃ m ∈ tasks, key <+: t.keyOf (o.targetDir m.task)

/-- Cleaning up can come to every directory below those of the tasks: all paths are within the limits, and the path
of the tasks goes through no directory without files. -/
structure Accessible (t : Tree) (o : Options) (tasks : List TaskMatch) (t' : Tree) : Prop where
  limits : ∀ way, way ≠ [] → Wanted t o tasks (t.keyOf o.taskDir ++ way) →
    Tree.WithinLimits (pathTo o.taskDir way)
  apart : ∀ way, way ≠ [] → t.Passes o.taskDir (t.keyOf o.taskDir ++ way) → ¬ t'.FileFree (t.keyOf o.taskDir ++ way)

/-- The directories after a conversion, beside the tree before. -/
structure Housed (t : Tree) (o : Options) (tasks : List TaskMatch) (t' : Tree) : Prop where
  wanted : ∀ key, t'.find? key = some .directory → Wanted t o tasks key
  /-- A directory is gone only where cleaning up finds no file. -/
  stays : ∀ key, Wanted t o tasks key → t'.find? key = some .directory ∨
    o.mode = .move ∧ o.clean ∧ (∃ way, way ≠ [] ∧ key = t.keyOf o.taskDir ++ way) ∧ t'.FileFree key
  cleaned : o.mode = .move → o.clean → Accessible t o tasks t' → ∀ way, way ≠ [] →
    t'.find? (t.keyOf o.taskDir ++ way) = some .directory → ¬ t'.FileFree (t.keyOf o.taskDir ++ way)

theorem housed_cleaned {after : Tree} (hafter : after.WellFormed) (hcurrent : after.current = t.current)
    (hroot : after.look o.taskDir = .ok (t.keyOf o.taskDir, .directory)) (hclean : o.mode = .move ∧ o.clean)
    (hmade : ∀ key, after.find? key = some .directory ↔ Wanted t o tasks key) :
    Housed t o tasks (removeEmptyDirs o.taskDir after).2 := by
  obtain ⟨ways, hprunes⟩ := removeEmptyDirs_prunes hafter.fromRoot o.taskDir
  rw [Tree.keyOf_congr hcurrent] at hprunes
  refine ⟨fun key hdir => (hmade key).mp (hprunes.directory hdir), fun key hwanted => ?_, fun _ _ haccess => ?_⟩
  · by_cases hfree : (∃ way, way ≠ [] ∧ key = t.keyOf o.taskDir ++ way) ∧ after.FileFree key
    · exact .inr ⟨hclean.1, hclean.2, hfree.1, hprunes.fileFree.mpr hfree.2⟩
    · exact .inl (hprunes.stays ((hmade key).mpr hwanted) fun hbelow hnone => hfree ⟨hbelow, hnone⟩)
  · have hfound := Tree.directoryKey_eq_ok.mpr hroot
    have happroach : Approachable after o.taskDir (t.keyOf o.taskDir) := by
      refine ⟨hfound, fun way hway hdir => ?_, fun way hway hpasses hfree => ?_⟩
      · have hlimits := haccess.limits way hway ((hmade _).mp hdir)
        exact Tree.directoryKey_pathTo hafter.fromRoot hfound hlimits.short hdir
      · exact haccess.apart way hway ((Tree.passes_congr hcurrent).mp hpasses) (hprunes.fileFree.mpr hfree)
    exact (cleanUp_tidies faithful_directoryNames hafter.fromRoot happroach).2

/-- A conversion that is ready runs through, converts all files and leaves these directories. -/
theorem Ready.applied {c : Candidate} (h : Ready t o level c.tasks) (hcheck : check t o c = .ok ())
    (hroot : t.look o.taskDir = .ok (base, .directory)) : (∃ report, (apply t o c).result = .ok report) ∧
      (apply t o c).transfers = plan o c ∧ Converted t o c.tasks t.fileAt (apply t o c).tree.fileAt ∧
      Housed t o c.tasks (apply t o c).tree := by
  have hstart : Along t o c.tasks [] (.start t) :=
    ⟨h.wellFormed, rfl, rfl, rfl, rfl, Progress.counted_start t, fun key => .inl⟩
  obtain ⟨p, hp, hkeeps, hdirs⟩ := h.tasks_ok hstart (.refl t) List.prefix_rfl fun m hm => hm
  have hfollows := follows_tasks h.wellFormed h.arranged h.noUp fun m hm =>
    ⟨hm, h.noDirectories hm, h.marks_free hm⟩
  obtain ⟨halong, -⟩ := (hfollows [] (.start t) List.prefix_rfl hstart).1 p hp
  have hconverted := h.converted halong.performed
  have hmade (key : Key) : p.tree.find? key = some .directory ↔ Wanted t o c.tasks key := by
    refine ⟨halong.directories key, ?_⟩
    rintro (hdir | ⟨m, hm, hdown⟩)
    · exact hkeeps key hdir
    · exact halong.wellFormed.find?_of_prefix (hdirs m hm) hdown
  obtain rfl := Tree.locate_eq_ok (Tree.look_eq_ok.mp hroot).1
  have hbase : p.tree.look o.taskDir = .ok (t.keyOf o.taskDir, .directory) :=
    Tree.look_of_keeps halong.current hkeeps hroot
  have hdone : p.log = plan o c := by rw [halong.log, List.nil_append, transfersOf_script, plan_eq]
  unfold apply
  rw [hcheck]
  dsimp only
  rw [hp]
  dsimp only
  split
  · rename_i hclean
    refine ⟨⟨_, rfl⟩, hdone, ?_, housed_cleaned halong.wellFormed halong.current hbase hclean hmade⟩
    rw [removeEmptyDirs_fileAt halong.wellFormed]
    exact hconverted
  · rename_i hkeep
    exact ⟨⟨_, rfl⟩, hdone, hconverted, fun key => (hmade key).mp, fun key hwanted => .inl ((hmade key).mpr hwanted),
      fun hmove hclean => absurd ⟨hmove, hclean⟩ hkeep⟩

end ContestTests.Conversion
