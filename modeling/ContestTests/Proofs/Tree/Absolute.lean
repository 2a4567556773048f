import ContestTests.Proofs.Tree.Changes

/-!
# Absolute paths

An absolute path leads to the same place wherever relative paths start, so what is done at absolute paths alone
is done as from the root. Where relative paths start nowhere, nothing is done at them.
-/

namespace ContestTests.Tree

open ContestTests.Path

variable {t t' : Tree} {base path source target : String} {key : Key} {content : ByteArray} {cs : List Component}
  {above : Action Unit}

-- ---------------------------------------------------------------------------
-- Single operations
-- ---------------------------------------------------------------------------

theorem isAbsolute_of_join (h : isAbsolute base) (path : String) : isAbsolute (join base path) := by
  cases hpath : isAbsolute path with
  | true => rwa [join, if_pos hpath]
  | false => rwa [isAbsolute_join hpath]

theorem isAbsolute_directory (h : isAbsolute base) (task : String) : isAbsolute (Task.directory base task) := by
  rw [Task.directory]
  split
  · exact h
  · exact isAbsolute_of_join h task

theorem follow_fromRoot (t : Tree) (key : Key) (steps : List Component) :
    t.fromRoot.follow key steps = t.follow key steps := by
  induction steps generalizing key with
  | nil => rfl
  | cons step steps ih =>
    rw [follow, follow]
    simp only [ih]
    rfl

theorem locate_fromRoot (h : isAbsolute path) : t.fromRoot.locate path = t.locate path := by
  rw [locate, locate, if_pos h, if_pos h, follow_fromRoot]

theorem look_fromRoot (h : isAbsolute path) : t.fromRoot.look path = t.look path := by
  rw [look, look, locate_fromRoot h]
  rfl

theorem exists?_fromRoot (h : isAbsolute path) : t.fromRoot.exists? path = t.exists? path := by
  rw [exists?, exists?, look_fromRoot h]

theorem isDirectory_fromRoot (h : isAbsolute path) : t.fromRoot.isDirectory path = t.isDirectory path := by
  rw [isDirectory, isDirectory, look_fromRoot h]

theorem directoryKey_fromRoot (h : isAbsolute path) : t.fromRoot.directoryKey path = t.directoryKey path := by
  rw [directoryKey, directoryKey, look_fromRoot h]

theorem keyOf_fromRoot (h : isAbsolute path) : t.fromRoot.keyOf path = t.keyOf path := by
  rw [keyOf, keyOf, if_pos h, if_pos h]

theorem find?_fromRoot (t : Tree) (key : Key) : t.fromRoot.find? key = t.find? key := rfl

theorem refusesRename_fromRoot (t : Tree) (source target : Key) :
    t.fromRoot.refusesRename source target = t.refusesRename source target := rfl

theorem write_fromRoot (h : isAbsolute path) :
    t.fromRoot.write path content = (t.write path content).map fromRoot := by
  have hdrop : isAbsolute (dropSlash path) := (isAbsolute_dropSlash path).trans h
  rw [write, write, locate_fromRoot h, locate_fromRoot hdrop]
  cases t.locate path with
  | error fault =>
    dsimp only
    rw [apply_ite (Except.map fromRoot)]
    rfl
  | ok key =>
    dsimp only
    rw [find?_fromRoot]
    rcases t.find? key with _ | _ | _ <;> rfl

theorem makeDir_fromRoot (h : isAbsolute path) : t.fromRoot.makeDir path = (t.makeDir path).map fromRoot := by
  rw [makeDir, makeDir, locate_fromRoot ((isAbsolute_dropSlash path).trans h)]
  cases t.locate (dropSlash path) with
  | error fault => rfl
  | ok key =>
    simp only [bind, Except.bind, find?_fromRoot]
    rcases t.find? key with _ | _ <;> rfl

theorem copyFile_fromRoot (hsource : isAbsolute source) (htarget : isAbsolute target) :
    t.fromRoot.copyFile source target = (t.copyFile source target).map fromRoot := by
  rw [copyFile, copyFile, look_fromRoot hsource]
  rcases t.look source with _ | ⟨key, _ | content⟩
  · rfl
  · rfl
  · exact write_fromRoot htarget

theorem removeFile_fromRoot (h : isAbsolute path) : t.fromRoot.removeFile path = (t.removeFile path).map fromRoot := by
  rw [removeFile, removeFile, look_fromRoot h]
  rcases t.look path with _ | ⟨key, _ | _⟩ <;> rfl

theorem rename_fromRoot (hsource : isAbsolute source) (htarget : isAbsolute target) :
    t.fromRoot.rename source target = (t.rename source target).map fromRoot := by
  have hdrop : isAbsolute (dropSlash target) := (isAbsolute_dropSlash target).trans htarget
  rw [rename, rename, look_fromRoot hsource]
  rcases t.look source with _ | ⟨key, _ | content⟩
  · rfl
  · simp only [bind, Except.bind, find?_fromRoot, locate_fromRoot hdrop]
    rcases t.locate (dropSlash target) with _ | targetKey
    · rfl
    · dsimp only
      by_cases hrefuses : t.refusesRename key targetKey
      · rw [if_pos hrefuses, if_pos (by rwa [refusesRename_fromRoot])]
        rfl
      · rw [if_neg hrefuses, if_neg (by rwa [refusesRename_fromRoot])]
        rcases t.find? targetKey with _ | _
        · rcases (stepsOf (dropSlash source)).getLast? with _ | _ | _ | _ | name
          case some.entry =>
            dsimp only
            rw [apply_ite (Except.map fromRoot)]
            rfl
          all_goals rfl
        · rfl
  · simp only [bind, Except.bind, find?_fromRoot, locate_fromRoot htarget]
    rcases t.locate target with _ | targetKey
    · rfl
    · dsimp only
      by_cases hrefuses : t.refusesRename key targetKey
      · rw [if_pos hrefuses, if_pos (by rwa [refusesRename_fromRoot])]
        rfl
      · rw [if_neg hrefuses, if_neg (by rwa [refusesRename_fromRoot])]
        rcases t.find? targetKey with _ | _
        · rcases (stepsOf (dropSlash source)).getLast? with _ | _ | _ | _ | _ <;> rfl
        · rfl

-- ---------------------------------------------------------------------------
-- Making directories
-- ---------------------------------------------------------------------------

/-- What the action does, it does with relative paths from the root as well. -/
def Rootable (action : Action Unit) : Prop := ∀ t t', action t = .ok () t' → action t.fromRoot = .ok () t'.fromRoot

theorem rootable_pure : Rootable (pure ()) := by
  intro t t' h
  cases h
  rfl

theorem rootable_makeDirAfter (habove : Rootable above) (h : isAbsolute path) :
    Rootable (Action.makeDirAfter above path) := by
  intro t t' hok
  unfold Action.makeDirAfter at hok ⊢
  rw [makeDir_fromRoot h]
  cases hmake : t.makeDir path with
  | ok t₁ =>
    rw [hmake] at hok
    cases hok
    rfl
  | error fault =>
    rw [hmake] at hok
    have hthere (t₁ : Tree) (fault : Fault)
        (hok : (if t₁.isDirectory path then EStateM.Result.ok () t₁ else .error fault t₁) = .ok () t') :
        (if t₁.fromRoot.isDirectory path then EStateM.Result.ok () t₁.fromRoot else .error fault t₁.fromRoot) =
          .ok () t'.fromRoot := by
      rw [isDirectory_fromRoot h]
      split at hok
      · rename_i hdir
        cases hok
        rw [if_pos hdir]
      · cases hok
    cases fault
    case notFound =>
      dsimp only [Except.map] at hok ⊢
      cases hmade : above t with
      | error fault t₁ =>
        rw [hmade] at hok
        cases hok
      | ok u t₁ =>
        rw [hmade] at hok
        rw [habove t t₁ hmade]
        dsimp only at hok ⊢
        rw [makeDir_fromRoot h]
        cases hmake₁ : t₁.makeDir path with
        | ok t₂ =>
          rw [hmake₁] at hok
          cases hok
          rfl
        | error fault =>
          rw [hmake₁] at hok
          exact hthere t₁ fault hok
    all_goals exact hthere t _ hok

theorem isAbsolute_ofComponents (cs : List Component) : isAbsolute (ofComponents (.root :: cs)) := isAbsolute_slash _

theorem rootable_createComponents (cs : List Component) : Rootable (Action.createComponents (cs ++ [.root])) := by
  have hstep {c : Component} {above more : List Component} (habove : Rootable (Action.createComponents above))
      (h : (c :: above).reverse = .root :: more) : Rootable (Action.createComponents (c :: above)) := by
    refine rootable_makeDirAfter habove ?_
    rw [h]
    exact isAbsolute_ofComponents more
  induction cs with
  | nil => exact hstep rootable_pure List.reverse_singleton
  | cons c cs ih =>
    have hreverse : (c :: (cs ++ [Component.root])).reverse = .root :: (cs.reverse ++ [c]) := by simp
    exact hstep ih hreverse

theorem rootable_createDirs (h : isAbsolute path) : Rootable (Action.createDirs path) := by
  unfold Action.createDirs
  split
  · exact rootable_pure
  · refine rootable_makeDirAfter ?_ h
    obtain ⟨cs, hcs, -⟩ := components_eq path
    rw [hcs, h]
    rcases List.eq_nil_or_concat cs with rfl | ⟨init, last, rfl⟩
    · exact rootable_pure
    · have htail : (rooted true (init.concat last)).reverse.tail = init.reverse ++ [.root] := by
        simp [rooted]
      rw [htail]
      exact rootable_createComponents init.reverse

-- ---------------------------------------------------------------------------
-- Relative paths
-- ---------------------------------------------------------------------------

theorem stepsOf_ne_nil (hne : path ≠ "") (h : isAbsolute path = false) : stepsOf path ≠ [] := by
  obtain ⟨c, s, hs⟩ := List.exists_cons_of_ne_nil fun he => hne (String.toList_eq_nil_iff.mp he)
  have hc : c ≠ '/' := by
    rintro rfl
    simp [isAbsolute, hs] at h
  intro hnil
  have hpieces := List.map_eq_nil_iff.mp (List.append_eq_nil_iff.mp hnil).1
  rw [pieces, hs, Text.splitOn, if_neg hc] at hpieces
  split at hpieces <;> simp at hpieces

theorem locate_of_no_current (hcurrent : t.find? t.current ≠ some .directory) (h : isAbsolute path = false) :
    t.locate path ≠ .ok key := by
  intro hlocate
  obtain ⟨hne, -, -, hfollow⟩ := locate_eq_ok_iff.mp hlocate
  obtain ⟨step, steps, hsteps⟩ := List.exists_cons_of_ne_nil (stepsOf_ne_nil hne h)
  rw [h, hsteps] at hfollow
  exact hcurrent (follow_cons_eq_ok.mp hfollow).1

theorem makeDirAfter_of_no_current (hcurrent : t.find? t.current ≠ some .directory) (h : isAbsolute path = false)
    (habove : leaves (above t) = t) : ∃ fault, Action.makeDirAfter above path t = .error fault t := by
  have hdrop : isAbsolute (dropSlash path) = false := (isAbsolute_dropSlash path).trans h
  have hmake : ∃ fault, t.makeDir path = .error fault := by
    cases hmake : t.makeDir path with
    | error fault => exact ⟨fault, rfl⟩
    | ok t₁ =>
      obtain ⟨key, hlocate, -⟩ := bind_eq_ok.mp hmake
      exact absurd hlocate (locate_of_no_current hcurrent hdrop)
  have hdir : t.isDirectory path = false :=
    Bool.eq_false_iff.mpr fun hdir => locate_of_no_current hcurrent h (isDirectory_iff.mp hdir).1
  obtain ⟨fault, hmake⟩ := hmake
  rw [Action.makeDirAfter, hmake]
  cases fault
  case notFound =>
    dsimp only
    cases hmade : above t with
    | error fault t₁ =>
      rw [hmade] at habove
      exact ⟨fault, congrArg _ habove⟩
    | ok u t₁ =>
      rw [hmade] at habove
      obtain rfl : t₁ = t := habove
      exact ⟨.notFound, by simp [hmake, hdir]⟩
  all_goals exact ⟨_, if_neg (by simp [hdir])⟩

theorem createComponents_of_no_current (hcurrent : t.find? t.current ≠ some .directory) (hproper : ∀ c ∈ cs, Proper c) :
    leaves (Action.createComponents cs t) = t := by
  induction cs with
  | nil => rfl
  | cons c above ih =>
    have habs : isAbsolute (ofComponents (c :: above).reverse) = false :=
      (pieces_ofComponents false fun d hd => hproper d (List.mem_reverse.mp hd)).2
    obtain ⟨fault, hfault⟩ := makeDirAfter_of_no_current hcurrent habs (ih (List.forall_mem_cons.mp hproper).2)
    have hresult : Action.createComponents (c :: above) t = .error fault t := hfault
    rw [hresult]
    rfl

theorem createDirs_of_no_current (hcurrent : t.find? t.current ≠ some .directory) (h : isAbsolute path = false)
    (hne : path ≠ "") : Action.createDirs path t ≠ .ok () t' := by
  intro hok
  rw [Action.createDirs, if_neg (by simpa using hne)] at hok
  obtain ⟨cs, hcs, hsub, -⟩ := components_eq path
  have hproper : ∀ c ∈ (components path).reverse.tail, Proper c := by
    intro c hc
    have hmem := List.mem_reverse.mp (List.mem_of_mem_tail hc)
    rw [hcs, h] at hmem
    exact proper_of_sublist hsub c hmem
  obtain ⟨fault, hfault⟩ := makeDirAfter_of_no_current hcurrent h (createComponents_of_no_current hcurrent hproper)
  rw [hfault] at hok
  cases hok

end ContestTests.Tree
