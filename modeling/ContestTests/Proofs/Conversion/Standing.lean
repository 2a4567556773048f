import ContestTests.Proofs.Conversion.Overwriting

/-!
# What stands after a conversion

Transfers need the directory of their target, and a run takes no directory away. So after it every
numbered file is found where its path leads, as it was when the file arrived.
-/

namespace ContestTests

variable {t t' t₁ start : Tree} {source target : String} {content : ByteArray}

theorem Tree.rename_locate (hfind : t.find? (t.keyOf source) ≠ some .directory) (h : t.rename source target = .ok t') :
    t.locate target = .ok (t.keyOf target) := by
  obtain ⟨⟨key, entry⟩, hlook, h⟩ := bind_eq_ok.mp h
  obtain ⟨hlocate, hthere⟩ := Tree.look_eq_ok.mp hlook
  obtain rfl := Tree.locate_eq_ok hlocate
  obtain ⟨targetKey, htarget, -⟩ := bind_eq_ok.mp h
  cases entry with
  | directory => exact absurd hthere hfind
  | file content =>
    obtain rfl := Tree.locate_eq_ok htarget
    exact htarget

namespace Conversion

variable {o : Options} {c : Candidate} {m : TaskMatch} {tr : Transfer} {deeds : List Deed} {mode : TransferMode}
  {level : Nat} {report : Report}

theorem transferFile_locate (ht : t.WellFormed) (hsource : t.find? (t.keyOf source) ≠ some .directory)
    (h : transferFile mode source target t = .ok () t') : t.locate target = .ok (t.keyOf target) := by
  have hcopied {t₁ : Tree} (hcopy : t.copyFile source target = .ok t₁) : t.locate target = .ok (t.keyOf target) := by
    obtain ⟨-, -, hlocate, -⟩ := Tree.copyFile_becomes ht hcopy
    exact hlocate
  cases (transferFile_eq_ok.mp h).2 with
  | copied hcopy => exact hcopied hcopy
  | renamed hrename => exact Tree.rename_locate hsource hrename
  | replaced _ hcopy _ => exact hcopied hcopy

-- ---------------------------------------------------------------------------
-- Runs
-- ---------------------------------------------------------------------------

theorem Underway.source_not_directory (h : Underway start o (.transfer tr :: deeds) t)
    (htransfer : transferFile o.mode tr.source tr.target t = .ok () t₁) :
    t.find? (t.keyOf tr.source) ≠ some .directory :=
  transferFile_source h.wellFormed (fun hmove => h.keyOf tr.source ▸ (h.movable hmove).not_directory) htransfer

namespace Run

theorem keeps (h : Run o t deeds t') (hway : Underway start o deeds t) : t.Keeps t' := by
  induction h with
  | done t => exact .refl t
  | directory hmake _ ih =>
    have hadds := Tree.makeDir_addsDirs hway.wellFormed hmake List.prefix_rfl
    exact hadds.keeps.trans (ih (hway.directory hmake).1)
  | transfer htransfer _ ih =>
    obtain ⟨-, -, -, hway₁, -⟩ := hway.transfer htransfer
    have hdirectories := transferFile_directories hway.wellFormed (hway.source_not_directory htransfer) htransfer
    exact Tree.Keeps.trans (fun key => (hdirectories key).mpr) (ih hway₁)
  | marks hwrite _ ih =>
    obtain ⟨-, hway₁, -⟩ := hway.marks hwrite
    exact Tree.Keeps.trans (fun key => (Tree.write_directories hway.wellFormed hwrite key).mpr) (ih hway₁)

theorem underway_done (h : Run o t deeds t') (hway : Underway start o deeds t) : Underway start o [] t' :=
  h.underway (by rwa [List.append_nil])

theorem target_file (h : Run o t deeds t') (hway : Underway start o deeds t) (htr : tr ∈ transfersOf deeds) :
    ∃ content, t'.fileAt (start.keyOf tr.target) = some content := by
  obtain ⟨before, behind, rfl⟩ := List.append_of_mem (mem_transfersOf.mp htr)
  obtain ⟨t₁, hbefore, hbehind⟩ := h.split
  obtain ⟨arrived, -, -, hsame | ⟨m, -, -, -, hmarks⟩⟩ := hbehind.arrives (hbefore.underway hway)
  · exact ⟨arrived, hsame⟩
  · exact ⟨_, hmarks⟩

theorem unblocked (h : Run o t (.transfer tr :: deeds) t') (hway : Underway start o (.transfer tr :: deeds) t)
    {above : Key} {name : String} (hkey : start.keyOf tr.target = above ++ [name]) : t.Unblocked above := by
  generalize hall : Deed.transfer tr :: deeds = all at h
  induction h with
  | done => cases hall
  | marks => cases hall
  | directory hmake _ ih =>
    obtain ⟨hway₁, hfiles⟩ := hway.directory hmake
    have hfree := ih hway₁ hall
    intro key hdown content hfile
    rw [← Tree.fileAt_eq_some_iff, ← hfiles] at hfile
    exact hfree key hdown content (Tree.fileAt_eq_some_iff.mp hfile)
  | transfer htransfer _ _ =>
    cases hall
    have hlocate := transferFile_locate hway.wellFormed (hway.source_not_directory htransfer) htransfer
    rw [hway.keyOf, hkey] at hlocate
    intro key hdown content hfile
    rw [hway.wellFormed.find?_of_prefix (hway.wellFormed.parent_of_locate hlocate) hdown] at hfile
    cases hfile

end Run

-- ---------------------------------------------------------------------------
-- The whole conversion
-- ---------------------------------------------------------------------------

theorem check_of_ok (h : (apply t o c).result = .ok report) : check t o c = .ok () := by
  cases hcheck : check t o c with
  | ok u => rfl
  | error failure =>
    rw [apply, hcheck] at h
    cases h

theorem tree_of_ok (h : (apply t o c).result = .ok report) : ∃ p, Work.tasks o c.tasks (.start t) = .ok () p ∧
    (apply t o c).tree = if o.mode = .move ∧ o.clean then (removeEmptyDirs o.taskDir p.tree).2 else p.tree := by
  obtain ⟨p, hwork⟩ := tasks_of_apply h
  refine ⟨p, hwork, ?_⟩
  rw [apply, check_of_ok h]
  simp only [hwork]
  split <;> rfl

theorem run_of_tasks {p : Progress} (h : Work.tasks o c.tasks (.start t) = .ok () p) :
    Run o t (script o c.tasks) p.tree :=
  (performs_tasks c.tasks (.start t)).1 p h

theorem run_of_ok (h : (apply t o c).result = .ok report) :
    (∀ m ∈ c.tasks, t.exists? (o.marksPath m) = false) ∧ ∃ after, Run o t (script o c.tasks) after ∧
      (apply t o c).tree = if o.mode = .move ∧ o.clean then (removeEmptyDirs o.taskDir after).2 else after := by
  obtain ⟨p, hwork, htree⟩ := tree_of_ok h
  exact ⟨(check_eq_ok.mp (check_of_ok h)).2, p.tree, run_of_tasks hwork, htree⟩

theorem Found.transfer_mem (h : Found t o level c) (hm : m ∈ c.tasks) {isInput : Bool} {index : Nat} {record : Record}
    (hrecord : (if isInput then m.inputs else m.outputs)[index]? = some record)
    (hboth : isInput = false → o.infilesOnly = false) :
    o.transfer m.task isInput index record ∈ transfersOf (script o c.tasks) :=
  mem_transfersOf.mpr (Ready.mem_script (List.mem_flatMap.mpr ⟨m, hm, h.mem_transfers hm hrecord hboth⟩))

end Conversion

end ContestTests
