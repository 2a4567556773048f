import ContestTests.Proofs.Conversion.Script
import ContestTests.Proofs.Tree.Reach

/-!
# What a transfer does

A transfer gives the file a new name, or copies it and removes it from its old place. A transfer that fails leaves the
tree as it was: what was just copied can be removed.
-/

namespace ContestTests

open ContestTests.Path

namespace Conversion

-- ---------------------------------------------------------------------------
-- How it goes
-- ---------------------------------------------------------------------------

/-- The ways in which a transfer comes to its end. -/
inductive Goes (t : Tree) (source target : String) : TransferMode → Tree → Prop where
  | copied {t'} : t.copyFile source target = .ok t' → Goes t source target .copy t'
  | renamed {t'} : t.rename source target = .ok t' → Goes t source target .move t'
  | replaced {t₁ t' fault} : t.rename source target = .error fault → t.copyFile source target = .ok t₁ →
      t₁.removeFile source = .ok t' → Goes t source target .move t'

variable {t t' t₁ : Tree} {source target : String} {mode : TransferMode} {fault : Fault} {content : ByteArray}

theorem ofChange_eq_ok {change : Tree → Except Fault Tree} : Action.ofChange change t = .ok () t' ↔ change t = .ok t' := by
  rw [Action.ofChange]
  cases change t <;> simp

theorem ofChange_eq_error {change : Tree → Except Fault Tree} :
    Action.ofChange change t = .error fault t' ↔ change t = .error fault ∧ t = t' := by
  rw [Action.ofChange]
  cases change t <;> simp

theorem moveFile_of_rename (h : t.rename source target = .ok t') : moveFile source target t = .ok () t' := by
  simp only [moveFile, Action.rename, Action.ofChange, h, tryCatch, tryCatchThe, MonadExceptOf.tryCatch, EStateM.tryCatch]

theorem moveFile_of_refusal (h : t.rename source target = .error fault) :
    moveFile source target t = (do Action.copyFile source target; Action.removeFile source) t := by
  simp only [moveFile, Action.rename, Action.ofChange, h, tryCatch, tryCatchThe, MonadExceptOf.tryCatch, EStateM.tryCatch,
    EStateM.Backtrackable.restore, EStateM.dummyRestore]

theorem transferFile_of_exists (h : t.exists? target) :
    transferFile mode source target t = .error .targetExists t := by
  change (ite (t.exists? target) _ _ : Action Unit) t = _
  rw [if_pos h]
  rfl

theorem copy_of_free (h : t.exists? target = false) :
    transferFile .copy source target t = Action.copyFile source target t := by
  change (ite (t.exists? target) _ _ : Action Unit) t = _
  rw [if_neg (Bool.eq_false_iff.mp h)]

theorem move_of_free (h : t.exists? target = false) :
    transferFile .move source target t = moveFile source target t := by
  change (ite (t.exists? target) _ _ : Action Unit) t = _
  rw [if_neg (Bool.eq_false_iff.mp h)]

theorem transferFile_eq_ok : transferFile mode source target t = .ok () t' ↔
    t.exists? target = false ∧ Goes t source target mode t' := by
  cases hexists : t.exists? target with
  | true => simp [transferFile_of_exists hexists]
  | false =>
    refine Iff.trans ?_ (and_iff_right rfl).symm
    cases mode with
    | copy =>
      rw [copy_of_free hexists, Action.copyFile, ofChange_eq_ok]
      constructor
      · exact .copied
      · rintro ⟨h⟩
        exact h
    | move =>
      rw [move_of_free hexists]
      cases hrename : t.rename source target with
      | ok t₂ =>
        simp only [moveFile_of_rename hrename]
        constructor
        · intro h
          cases h
          exact .renamed hrename
        · rintro (_ | h | ⟨h, -, -⟩)
          · cases hrename.symm.trans h
            rfl
          · cases hrename.symm.trans h
      | error fault =>
        simp only [moveFile_of_refusal hrename]
        constructor
        · intro h
          obtain ⟨⟨⟩, t₁, hcopy, hremove⟩ := stateBind_eq_ok.mp h
          exact .replaced hrename (ofChange_eq_ok.mp hcopy) (ofChange_eq_ok.mp hremove)
        · rintro (_ | h | ⟨-, hcopy, hremove⟩)
          · cases hrename.symm.trans h
          · exact stateBind_eq_ok.mpr ⟨(), _, ofChange_eq_ok.mpr hcopy, ofChange_eq_ok.mpr hremove⟩

-- ---------------------------------------------------------------------------
-- Where it fails
-- ---------------------------------------------------------------------------

/-- After a copy to a free place the source is still there. -/
theorem exists_removeFile_of_copyFile (hfree : t.exists? target = false) (h : t.copyFile source target = .ok t₁) :
    ∃ t', t₁.removeFile source = .ok t' := by
  obtain ⟨⟨key, entry⟩, hlook, hwrite⟩ := bind_eq_ok.mp h
  cases entry with
  | directory => cases hwrite
  | file content =>
    obtain ⟨hlocate, hstands⟩ := Tree.look_eq_ok.mp hlook
    obtain ⟨htarget, -, rfl⟩ := Tree.put_of_write hwrite
    have hnone := Tree.find?_of_vacant (Bool.eq_false_iff.mp hfree) htarget
    have hkept {k : Key} {entry : Entry} (hk : t.find? k = some entry) :
        (t.put (t.keyOf target) (.file content)).find? k = some entry := by
      rw [Tree.find?_put _ _ _ _ fun hroot => ?_, if_neg, hk]
      · rintro rfl
        rw [hnone] at hk
        cases hk
      · rw [hroot] at hnone
        cases hnone
    have hcurrent : (t.put (t.keyOf target) (.file content)).current = t.current := rfl
    have hthere : (t.put (t.keyOf target) (.file content)).look source = .ok (key, .file content) :=
      Tree.look_eq_ok.mpr ⟨Tree.locate_of_keeps hcurrent (fun _ => hkept) hlocate, hkept hstands⟩
    exact ⟨_, by rw [Tree.removeFile, hthere]; rfl⟩

/-- A transfer that fails leaves nothing behind. -/
theorem transferFile_unchanged (h : transferFile mode source target t = .error fault t') : t' = t := by
  cases hexists : t.exists? target with
  | true =>
    rw [transferFile_of_exists hexists] at h
    cases h
    rfl
  | false =>
    cases mode with
    | copy =>
      rw [copy_of_free hexists] at h
      exact (ofChange_eq_error.mp h).2.symm
    | move =>
      rw [move_of_free hexists] at h
      cases hrename : t.rename source target with
      | ok t₂ =>
        simp only [moveFile_of_rename hrename] at h
        cases h
      | error fault =>
        simp only [moveFile_of_refusal hrename] at h
        rcases stateBind_eq_error.mp h with hcopy | ⟨⟨⟩, t₁, hcopy, hremove⟩
        · exact (ofChange_eq_error.mp hcopy).2.symm
        · obtain ⟨t₂, hremoved⟩ := exists_removeFile_of_copyFile hexists (ofChange_eq_ok.mp hcopy)
          cases hremoved.symm.trans (ofChange_eq_error.mp hremove).1

theorem transferFile_ok (hfree : t.exists? target = false) (h : t.copyFile source target = .ok t₁) :
    ∃ t', transferFile mode source target t = .ok () t' := by
  cases mode with
  | copy => exact ⟨_, transferFile_eq_ok.mpr ⟨hfree, .copied h⟩⟩
  | move =>
    cases hrename : t.rename source target with
    | ok t₂ => exact ⟨_, transferFile_eq_ok.mpr ⟨hfree, .renamed hrename⟩⟩
    | error fault =>
      obtain ⟨t₂, hremoved⟩ := exists_removeFile_of_copyFile hfree h
      exact ⟨_, transferFile_eq_ok.mpr ⟨hfree, .replaced hrename h hremoved⟩⟩

-- ---------------------------------------------------------------------------
-- What it leaves
-- ---------------------------------------------------------------------------

theorem copyFile_free (ht : t.WellFormed) (hfree : t.exists? target = false) (h : t.copyFile source target = .ok t₁) :
    ∃ content, t.find? (t.keyOf source) = some (.file content) ∧ t.find? (t.keyOf target) = none ∧
      t.Becomes t₁ fun k => if k = t.keyOf target then some (.file content) else t.find? k := by
  obtain ⟨content, hfind, hlocate, hbecomes⟩ := Tree.copyFile_becomes ht h
  exact ⟨content, hfind, Tree.find?_of_vacant (Bool.eq_false_iff.mp hfree) hlocate, hbecomes⟩

theorem transferFile_becomes (ht : t.WellFormed) (hsource : t.find? (t.keyOf source) ≠ some .directory)
    (h : transferFile mode source target t = .ok () t') :
    ∃ content, t.find? (t.keyOf source) = some (.file content) ∧ t.find? (t.keyOf target) = none ∧
      t.Becomes t' fun k => if k = t.keyOf target then some (.file content)
        else if mode = .move ∧ k = t.keyOf source then none else t.find? k := by
  obtain ⟨hfree, hgoes⟩ := transferFile_eq_ok.mp h
  cases hgoes with
  | copied hcopy =>
    obtain ⟨content, hfind, hnone, hbecomes⟩ := copyFile_free ht hfree hcopy
    refine ⟨content, hfind, hnone, hbecomes.wellFormed, hbecomes.current, fun k => ?_⟩
    rw [hbecomes.find?]
    simp
  | renamed hrename =>
    obtain ⟨content, hfind, hnone, hbecomes⟩ := Tree.rename_becomes ht hsource hrename
    refine ⟨content, hfind, hnone, hbecomes.wellFormed, hbecomes.current, fun k => ?_⟩
    rw [hbecomes.find?]
    simp
  | @replaced t₁ _ _ hrename hcopy hremove =>
    obtain ⟨content, hfind, hnone, hbecomes⟩ := copyFile_free ht hfree hcopy
    have hkey : t₁.keyOf source = t.keyOf source := Tree.keyOf_congr hbecomes.current source
    obtain ⟨-, hremoved⟩ := Tree.removeFile_becomes hbecomes.wellFormed hremove
    have hne : t.keyOf target ≠ t.keyOf source := by
      intro he
      rw [he, hfind] at hnone
      cases hnone
    refine ⟨content, hfind, hnone, hremoved.wellFormed, hremoved.current.trans hbecomes.current, fun k => ?_⟩
    rw [hremoved.find?, hbecomes.find?, hkey]
    by_cases hk : k = t.keyOf target
    · rw [if_pos hk, if_pos hk, if_neg (hk ▸ hne)]
    · rw [if_neg hk, if_neg hk]
      simp

theorem transferFile_directories (ht : t.WellFormed) (hsource : t.find? (t.keyOf source) ≠ some .directory)
    (h : transferFile mode source target t = .ok () t') (key : Key) :
    t'.find? key = some .directory ↔ t.find? key = some .directory := by
  obtain ⟨content, -, hnone, hbecomes⟩ := transferFile_becomes ht hsource h
  rw [hbecomes.find?]
  split
  · rename_i hkey
    rw [hkey, hnone]
    simp
  · split
    · rename_i hgone
      exact iff_of_false (by simp) (hgone.2 ▸ hsource)
    · rfl

end Conversion

end ContestTests
