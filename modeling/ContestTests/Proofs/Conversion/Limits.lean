import ContestTests.Proofs.Conversion.Progress
import ContestTests.Proofs.Tree.Reach

/-!
# What success tells

A conversion that succeeds went along every path that it names, so the operating system takes all of
them. It made no directory under a path that ends in a dot.
-/

namespace ContestTests

namespace Tree

open ContestTests.Path

variable {t t' : Tree} {path source target : String} {key : Key} {entry : Entry} {content : ByteArray}
  {above : Action Unit}

-- ---------------------------------------------------------------------------
-- Paths of files
-- ---------------------------------------------------------------------------

theorem withinLimits_of_look (h : t.look path = .ok (key, entry)) : WithinLimits path :=
  withinLimits_of_locate (look_eq_ok.mp h).1

theorem withinLimits_of_write (h : t.write path content = .ok t') : WithinLimits path := by
  cases hlocate : t.locate path with
  | ok key => exact withinLimits_of_locate hlocate
  | error fault =>
    rw [write, hlocate] at h
    dsimp only at h
    rw [← apply_ite Except.error] at h
    cases h

theorem withinLimits_of_copyFile (h : t.copyFile source target = .ok t') :
    WithinLimits source ∧ WithinLimits target := by
  obtain ⟨⟨key, entry⟩, hlook, h⟩ := bind_eq_ok.mp h
  cases entry with
  | directory => cases h
  | file content => exact ⟨withinLimits_of_look hlook, withinLimits_of_write h⟩

theorem dropSlash_of_last (h : path.toList.getLast? ≠ some '/') : dropSlash path = path := by
  rcases dropSlash_cases path with he | ⟨slashes, hslashes, htext, -⟩
  · exact he
  · rcases List.eq_nil_or_concat slashes with rfl | ⟨more, last, rfl⟩
    · rw [List.append_nil] at htext
      exact (String.toList_inj.mp htext).symm
    · rw [List.concat_eq_append] at hslashes htext
      obtain rfl := hslashes last (List.mem_append_right _ List.mem_cons_self)
      rw [htext, ← List.append_assoc, List.getLast?_concat] at h
      exact absurd rfl h

theorem withinLimits_of_rename (htarget : target.toList.getLast? ≠ some '/') (h : t.rename source target = .ok t') :
    WithinLimits source ∧ WithinLimits target := by
  obtain ⟨⟨key, entry⟩, hlook, h⟩ := bind_eq_ok.mp h
  obtain ⟨targetKey, hlocate, -⟩ := bind_eq_ok.mp h
  refine ⟨withinLimits_of_look hlook, ?_⟩
  cases entry with
  | directory =>
    dsimp only at hlocate
    rw [dropSlash_of_last htarget] at hlocate
    exact withinLimits_of_locate hlocate
  | file content => exact withinLimits_of_locate hlocate

-- ---------------------------------------------------------------------------
-- Directories whose path ends in a dot
-- ---------------------------------------------------------------------------

theorem find?_of_dot (h : t.locate path = .ok key) (hdot : (pieces path).getLast? = some ['.']) :
    t.find? (t.keyOf path) = some .directory := by
  have hfollow := follow_pieces h
  obtain ⟨init, hinit⟩ := List.getLast?_eq_some_iff.mp hdot
  rw [hinit, List.map_append, follow_append] at hfollow
  obtain ⟨k, -, hlast⟩ := bind_eq_ok.mp hfollow
  obtain ⟨hdir, -, hend⟩ := follow_cons_eq_ok.mp hlast
  cases hend
  rw [← locate_eq_ok h]
  exact hdir

theorem not_makeDir_of_dot (hdot : (pieces path).getLast? = some ['.']) : t.makeDir path ≠ .ok t' := by
  intro h
  obtain ⟨key, hlocate, h⟩ := bind_eq_ok.mp h
  have hdir := find?_of_dot hlocate (pieces_dropSlash path ▸ hdot)
  rw [← locate_eq_ok hlocate] at hdir
  rw [hdir] at h
  cases h

theorem makeDirAfter_of_dot (hdot : (pieces path).getLast? = some ['.'])
    (h : Action.makeDirAfter above path t = .ok () t') : t.find? (t.keyOf path) = some .directory ∨
      ∃ t₁, above t = .ok () t₁ ∧ t₁.find? (t₁.keyOf path) = some .directory := by
  unfold Action.makeDirAfter at h
  split at h
  · rename_i hmake
    exact absurd hmake (not_makeDir_of_dot hdot)
  · split at h
    · cases h
    · rename_i t₁ habove
      split at h
      · rename_i hmake
        exact absurd hmake (not_makeDir_of_dot hdot)
      · split at h
        · rename_i hthere
          exact .inr ⟨t₁, habove, (isDirectory_iff.mp hthere).2⟩
        · cases h
  · split at h
    · rename_i hthere
      exact .inl ((isDirectory_iff.mp hthere).2)
    · cases h

theorem last_component {parts : List Component} (hparts : parts.Sublist ((pieces path).map Component.ofPiece))
    (hhere : .here ∉ parts) (hup : .up ∉ components path) : parts = [] ∨ ∃ init name, parts = init ++ [.entry name] := by
  rcases List.eq_nil_or_concat parts with hnil | ⟨init, last, hlast⟩
  · exact .inl hnil
  · rw [List.concat_eq_append] at hlast
    have hmem : last ∈ parts := hlast ▸ List.mem_append_right _ List.mem_cons_self
    cases last with
    | root => exact absurd rfl (proper_of_sublist hparts _ hmem).1
    | here => exact absurd hmem hhere
    | up => exact absurd ((mem_components_iff (by simp) (by simp)).mpr (hparts.mem hmem)) hup
    | entry name => exact .inr ⟨init, name, hlast⟩

theorem components_cases (hup : .up ∉ components path) :
    (components path).dropLast = [] ∨ ∃ init name, components path = init ++ [.entry name] := by
  have hinner (parts : List Component) (hparts : parts.Sublist ((pieces path).map Component.ofPiece)) :
      parts.filter (· != .here) = [] ∨ ∃ init name, parts.filter (· != .here) = init ++ [.entry name] :=
    last_component (List.filter_sublist.trans hparts) (by simp) hup
  unfold components
  dsimp only
  split
  · rcases hinner _ (List.Sublist.refl _) with hnil | ⟨init, name, hsplit⟩
    · rw [hnil]
      exact .inl rfl
    · rw [hsplit]
      exact .inr ⟨.root :: init, name, rfl⟩
  · split
    · rename_i rest hparts
      rcases hinner rest (hparts ▸ List.sublist_cons_self _ _) with hnil | ⟨init, name, hsplit⟩
      · rw [hnil]
        exact .inl rfl
      · rw [hsplit]
        exact .inr ⟨.here :: init, name, rfl⟩
    · rcases hinner _ (List.Sublist.refl _) with hnil | ⟨init, name, hsplit⟩
      · rw [hnil]
        exact .inl rfl
      · exact .inr ⟨init, name, hsplit⟩

theorem createComponents_above (ht : t.WellFormed) (hup : .up ∉ components path)
    (h : Action.createComponents (components path).reverse.tail t = .ok () t') (hdir : t'.find? (t'.keyOf path) = some .directory) :
    t.find? (t.keyOf path) = some .directory := by
  rw [List.tail_reverse] at h
  rcases components_cases hup with hnil | ⟨init, name, hsplit⟩
  · rw [hnil] at h
    cases h
    exact hdir
  · rw [hsplit, List.dropLast_concat] at h
    have hinit : init <+: components path := hsplit ▸ List.prefix_append _ _
    have hadds := createComponents_addsOnly (fun t₁ ht₁ first hfirst hne => by
      rw [List.reverse_reverse] at hfirst
      rw [keyOf_first t₁ hne (hfirst.trans hinit), ht₁]
      exact foldl_first_components hup hne hfirst hinit t.current) t ht rfl
    rw [h, leaves] at hadds
    rw [keyOf_congr hadds.current] at hdir
    rcases hadds.find? (t.keyOf path) with he | ⟨-, -, hdown⟩
    · rwa [← he]
    · rw [← foldl_components, hsplit, List.foldl_append] at hdown
      have hlength := hdown.length_le
      rw [List.foldl_cons, List.foldl_nil, stepFrom, List.length_append, List.length_singleton] at hlength
      omega

/-- No directory is made under a path that ends in a dot. -/
theorem createDirs_of_dot (ht : t.WellFormed) (hup : .up ∉ components path)
    (hdot : (pieces path).getLast? = some ['.']) (h : Action.createDirs path t = .ok () t') :
    t.find? (t.keyOf path) = some .directory := by
  unfold Action.createDirs at h
  split at h
  · rename_i hempty
    rw [String.isEmpty_iff.mp hempty] at hdot
    cases hdot
  · rcases makeDirAfter_of_dot hdot h with hdir | ⟨t₁, habove, hdir⟩
    · exact hdir
    · exact createComponents_above ht hup habove hdir

end Tree

namespace Conversion

open ContestTests.Path

variable {t t' : Tree} {o : Options} {m : TaskMatch} {more : List TaskMatch} {mode : TransferMode} {source target : String}
  {tr : Transfer} {p p' : Progress} {c : Candidate} {report : Report}

-- ---------------------------------------------------------------------------
-- Paths of a conversion
-- ---------------------------------------------------------------------------

theorem transferFile_withinLimits (htarget : target.toList.getLast? ≠ some '/')
    (h : transferFile mode source target t = .ok () t') : Tree.WithinLimits source ∧ Tree.WithinLimits target := by
  cases (transferFile_eq_ok.mp h).2 with
  | copied hcopy => exact Tree.withinLimits_of_copyFile hcopy
  | renamed hrename => exact Tree.withinLimits_of_rename htarget hrename
  | replaced _ hcopy _ => exact Tree.withinLimits_of_copyFile hcopy

theorem transferAll_withinLimits {trs : List Transfer} (htargets : ∀ tr ∈ trs, tr.target.toList.getLast? ≠ some '/')
    (h : Work.transferAll mode trs p = .ok () p') :
    ∀ tr ∈ trs, Tree.WithinLimits tr.source ∧ Tree.WithinLimits tr.target := by
  induction trs generalizing p with
  | nil => simp
  | cons tr trs ih =>
    obtain ⟨htarget, htargets⟩ := List.forall_mem_cons.mp htargets
    obtain ⟨_, p₁, hfirst, hrest⟩ := stateBind_eq_ok.mp h
    obtain ⟨t', htransfer, -⟩ := Work.transfer_eq_ok hfirst
    exact List.forall_mem_cons.mpr ⟨transferFile_withinLimits htarget htransfer, ih htargets hrest⟩

theorem getLast?_target (htr : tr ∈ o.transfers m) : tr.target.toList.getLast? ≠ some '/' := by
  have hnumbered (isInput : Bool) (index : Nat) (record : Record) :
      (o.transfer m.task isInput index record).target.toList.getLast? ≠ some '/' := by
    have hlast := Tree.getLast?_join_way (o.targetDir m.task) (isName_numbered index isInput).isWay (by simp)
    rwa [wayText_singleton] at hlast
  rcases mem_transfersFrom.mp htr with ⟨j, record, -, rfl⟩ | ⟨-, j, record, -, -, rfl⟩
  · exact hnumbered _ _ _
  · exact hnumbered _ _ _

theorem tasks_withinLimits (h : Work.tasks o more p = .ok () p') : ∀ m ∈ more,
    (∀ tr ∈ o.transfers m, Tree.WithinLimits tr.source ∧ Tree.WithinLimits tr.target) ∧
      Tree.WithinLimits (o.marksPath m) := by
  induction more generalizing p with
  | nil => simp
  | cons m more ih =>
    obtain ⟨_, p₁, htask, hrest⟩ := stateBind_eq_ok.mp h
    obtain ⟨_, p₂, -, hdeeds⟩ := stateBind_eq_ok.mp htask
    obtain ⟨_, p₃, htransfers, hmarks⟩ := stateBind_eq_ok.mp hdeeds
    refine List.forall_mem_cons.mpr ⟨⟨?_, ?_⟩, ih hrest⟩
    · exact transferAll_withinLimits (fun tr => getLast?_target) htransfers
    · cases hwrite : p₃.tree.write (o.marksPath m) (marksContent m) with
      | error fault =>
        rw [writeMarks_error hwrite] at hmarks
        cases hmarks
      | ok t' => exact Tree.withinLimits_of_write hwrite

theorem ensureDir_of_dot (ht : p.tree.WellFormed) {path : String} (hup : .up ∉ components path)
    (hdot : (pieces path).getLast? = some ['.']) (h : Work.ensureDir path p = .ok () p') :
    p.tree.find? (p.tree.keyOf path) = some .directory := by
  unfold Work.ensureDir at h
  split at h
  · rename_i hexists
    obtain ⟨entry, hlocate, -⟩ := Tree.exists?_iff.mp hexists
    exact Tree.find?_of_dot hlocate hdot
  · unfold Work.ofAction at h
    split at h
    · rename_i hmade
      exact Tree.createDirs_of_dot ht hup hdot hmade
    · cases h

theorem tasks_of_apply (h : (apply t o c).result = .ok report) : ∃ p, Work.tasks o c.tasks (.start t) = .ok () p := by
  unfold apply at h
  split at h
  · cases h
  · dsimp only at h
    split at h
    · cases h
    · rename_i hwork
      exact ⟨_, hwork⟩

end Conversion

end ContestTests
