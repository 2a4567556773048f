import ContestTests.Proofs.Tree.WellFormed

/-!
# What changes of a tree change

A change that succeeds is said as the new view of the tree, and keeps it well formed. Making
directories may fail halfway, and even then adds nothing but missing directories on the way down.
-/

namespace ContestTests.Tree

open ContestTests.Path

variable {t t' t'' : Tree} {path source target : String} {key down : Key} {content : ByteArray}
  {view : Key → Option Entry}

/-- The tree turns into one in which this stands at the keys. -/
structure Becomes (t t' : Tree) (view : Key → Option Entry) : Prop where
  wellFormed : t'.WellFormed
  current : t'.current = t.current
  find? : ∀ key, t'.find? key = view key

def Keeps (t t' : Tree) : Prop := ∀ key, t.find? key = some .directory → t'.find? key = some .directory

theorem Keeps.refl (t : Tree) : Keeps t t := fun _ h => h

theorem Keeps.trans (h : Keeps t t') (h' : Keeps t' t'') : Keeps t t'' := fun key hkey => h' key (h key hkey)

theorem Keeps.groundedFrom {steps : List Component} (h : Keeps t t') (hgrounded : t.GroundedFrom key steps) :
    t'.GroundedFrom key steps := by
  induction steps generalizing key with
  | nil => trivial
  | cons step steps ih => exact ⟨fun hup => h key (hgrounded.1 hup), ih hgrounded.2⟩

theorem Keeps.grounded (h : Keeps t t') (hcurrent : t'.current = t.current) (hgrounded : t.Grounded path) :
    t'.Grounded path := by
  rw [Grounded, hcurrent]
  exact h.groundedFrom hgrounded

-- ---------------------------------------------------------------------------
-- Files
-- ---------------------------------------------------------------------------

theorem put_becomes (ht : t.WellFormed) (h : t.locate path = .ok key) (hdir : t.find? key ≠ some .directory)
    (entry : Entry) : Becomes t (t.put key entry) fun k => if k = key then some entry else t.find? k := by
  rcases ht.locate_cases h with hkey | ⟨above, name, rfl, habove, hname, -⟩
  · exact absurd hkey hdir
  · exact ⟨ht.put habove hname (.inr hdir), rfl, fun k => find?_put t _ k entry (by simp)⟩

theorem put_of_write (h : t.write path content = .ok t') :
    t.locate path = .ok (t.keyOf path) ∧ t.find? (t.keyOf path) ≠ some .directory ∧
      t' = t.put (t.keyOf path) (.file content) := by
  cases hlocate : t.locate path with
  | error fault =>
    rw [write, hlocate] at h
    dsimp only at h
    rw [← apply_ite Except.error] at h
    cases h
  | ok key =>
    obtain rfl := locate_eq_ok hlocate
    rw [write, hlocate] at h
    dsimp only at h
    split at h
    · cases h
    · rename_i hdir
      cases h
      exact ⟨rfl, hdir, rfl⟩

theorem write_becomes (ht : t.WellFormed) (h : t.write path content = .ok t') :
    t.locate path = .ok (t.keyOf path) ∧ t.find? (t.keyOf path) ≠ some .directory ∧
      Becomes t t' fun k => if k = t.keyOf path then some (.file content) else t.find? k := by
  obtain ⟨hlocate, hdir, rfl⟩ := put_of_write h
  exact ⟨hlocate, hdir, put_becomes ht hlocate hdir _⟩

theorem write_directories (ht : t.WellFormed) (h : t.write path content = .ok t') (k : Key) :
    t'.find? k = some .directory ↔ t.find? k = some .directory := by
  obtain ⟨-, hdir, hbecomes⟩ := write_becomes ht h
  rw [hbecomes.find?]
  split
  · rename_i hk
    exact iff_of_false (by simp) (hk ▸ hdir)
  · rfl

theorem copyFile_becomes (ht : t.WellFormed) (h : t.copyFile source target = .ok t') :
    ∃ content, t.find? (t.keyOf source) = some (.file content) ∧ t.locate target = .ok (t.keyOf target) ∧
      Becomes t t' fun k => if k = t.keyOf target then some (.file content) else t.find? k := by
  obtain ⟨entry, hlocate, hfind, h⟩ := exists_of_look_bind h
  cases entry with
  | directory => cases h
  | file content =>
    obtain ⟨hlocate, -, hbecomes⟩ := write_becomes ht h
    exact ⟨content, hfind, hlocate, hbecomes⟩

theorem ne_root_of_file (h : t.find? key = some (.file content)) : key ≠ [] := by
  rintro rfl
  cases h

theorem find?_erase_file (h : t.find? key = some (.file content)) (k : Key) :
    (t.erase key).find? k = if k = key then none else t.find? k := by
  split
  · rename_i hk
    rw [find?_erase t key k (hk ▸ ne_root_of_file h), if_pos hk]
  · rename_i hk
    exact find?_erase_of_ne hk

theorem removeFile_becomes (ht : t.WellFormed) (h : t.removeFile path = .ok t') :
    (∃ content, t.find? (t.keyOf path) = some (.file content)) ∧
      Becomes t t' fun k => if k = t.keyOf path then none else t.find? k := by
  obtain ⟨entry, hlocate, hfind, h⟩ := exists_of_look_bind h
  cases entry with
  | directory => cases h
  | file content =>
    cases h
    refine ⟨⟨content, hfind⟩, ht.eraseFile hfind, rfl, fun k => ?_⟩
    exact find?_erase_file hfind k

theorem rename_becomes (ht : t.WellFormed) (hsource : t.find? (t.keyOf source) ≠ some .directory)
    (h : t.rename source target = .ok t') :
    ∃ content, t.find? (t.keyOf source) = some (.file content) ∧ t.find? (t.keyOf target) = none ∧
      Becomes t t' fun k => if k = t.keyOf target then some (.file content)
        else if k = t.keyOf source then none else t.find? k := by
  obtain ⟨entry, hlocate, hfind, h⟩ := exists_of_look_bind h
  cases entry with
  | directory => exact absurd hfind hsource
  | file content =>
    obtain ⟨targetKey, htarget, h⟩ := bind_eq_ok.mp h
    obtain rfl := locate_eq_ok htarget
    dsimp only at h
    split at h
    · cases h
    split at h
    · cases h
    rename_i hvacant
    split at h
    case h_2 he =>
      cases he
    case h_1 c he =>
      cases he
      cases h
      have hne : t.keyOf target ≠ t.keyOf source := by
        intro he
        rw [he, hfind] at hvacant
        cases hvacant
      rcases ht.locate_cases htarget with hdir | ⟨above, name, hkey, habove, hname, -⟩
      · rw [hvacant] at hdir
        cases hdir
      · rw [hkey] at hvacant hne ⊢
        have hfree : (t.erase (t.keyOf source)).find? (above ++ [name]) = none := by
          rw [find?_erase_file hfind, if_neg hne, hvacant]
        have hstays : (t.erase (t.keyOf source)).find? above = some .directory := by
          rw [find?_erase_file hfind, if_neg, habove]
          rintro rfl
          rw [hfind] at habove
          cases habove
        refine ⟨content, hfind, hvacant, (ht.eraseFile hfind).put hstays hname (.inr (by simp [hfree])), rfl, fun k => ?_⟩
        rw [find?_put _ _ _ _ (by simp), find?_erase_file hfind]
    case h_3 => cases h

-- ---------------------------------------------------------------------------
-- Directories
-- ---------------------------------------------------------------------------

/-- The tree gets directories at missing keys on the way down to a key. -/
structure AddsDirs (down : Key) (t t' : Tree) : Prop where
  wellFormed : t'.WellFormed
  current : t'.current = t.current
  find? : ∀ key, t'.find? key = t.find? key ∨
    t.find? key = none ∧ t'.find? key = some .directory ∧ key <+: down

theorem AddsDirs.refl (ht : t.WellFormed) : AddsDirs down t t := ⟨ht, rfl, fun _ => .inl rfl⟩

theorem AddsDirs.trans (h : AddsDirs down t t') (h' : AddsDirs down t' t'') : AddsDirs down t t'' := by
  refine ⟨h'.wellFormed, h'.current.trans h.current, fun key => ?_⟩
  rcases h.find? key with he | ⟨hnone, hdir, hdown⟩
  · rw [← he]
    exact h'.find? key
  · rcases h'.find? key with he' | ⟨hnone', -⟩
    · exact .inr ⟨hnone, he'.trans hdir, hdown⟩
    · rw [hdir] at hnone'
      cases hnone'

def OnlyDirs (t t' : Tree) : Prop :=
  ∀ key, t'.find? key = t.find? key ∨ t.find? key = none ∧ t'.find? key = some .directory

theorem OnlyDirs.keeps (h : OnlyDirs t t') : Keeps t t' := by
  intro key hdir
  rcases h key with he | ⟨hnone, -⟩
  · rw [he, hdir]
  · rw [hdir] at hnone
    cases hnone

theorem AddsDirs.onlyDirs (h : AddsDirs down t t') : OnlyDirs t t' := fun key =>
  (h.find? key).imp_right fun hnew => ⟨hnew.1, hnew.2.1⟩

theorem AddsDirs.keeps (h : AddsDirs down t t') : Keeps t t' := h.onlyDirs.keeps

theorem makeDir_becomes (ht : t.WellFormed) (h : t.makeDir path = .ok t') : t.find? (t.keyOf path) = none ∧
    Becomes t t' fun k => if k = t.keyOf path then some .directory else t.find? k := by
  obtain ⟨key, hlocate, h⟩ := bind_eq_ok.mp h
  have hkey : key = t.keyOf path := (locate_eq_ok hlocate).trans (keyOf_dropSlash t path)
  split at h
  · cases h
  · rename_i hvacant
    cases h
    have hput := put_becomes ht hlocate (by simp [hvacant]) .directory
    exact hkey ▸ ⟨hvacant, hput⟩

theorem makeDir_addsDirs (ht : t.WellFormed) (h : t.makeDir path = .ok t') (hdown : t.keyOf path <+: down) :
    AddsDirs down t t' := by
  obtain ⟨hvacant, hbecomes⟩ := makeDir_becomes ht h
  refine ⟨hbecomes.wellFormed, hbecomes.current, fun k => ?_⟩
  rw [hbecomes.find?]
  split
  · rename_i hk
    subst hk
    exact .inr ⟨hvacant, rfl, hdown⟩
  · exact .inl rfl

-- ---------------------------------------------------------------------------
-- Directories one after the other
-- ---------------------------------------------------------------------------

inductive Makes (parts : String → Prop) : Tree → Tree → Prop
  | done (t : Tree) : Makes parts t t
  | made {t t₁ t' : Tree} {part : String} (hpart : parts part) (hmake : t.makeDir part = .ok t₁)
      (hmore : Makes parts t₁ t') : Makes parts t t'

variable {parts : String → Prop}

theorem Makes.trans (h : Makes parts t t') (h' : Makes parts t' t'') : Makes parts t t'' := by
  induction h with
  | done t => exact h'
  | made hpart hmake hmore ih => exact .made hpart hmake (ih h')

def leaves : EStateM.Result Fault Tree Unit → Tree
  | .ok _ t => t
  | .error _ t => t

/-- A path, and the paths above it as they are spelled when they are made. -/
def PartOf (path part : String) : Prop :=
  part = path ∨ ∃ first, first <+: components path ∧ first ≠ [] ∧ part = ofComponents first

variable {current : Key} {above : Action Unit}

theorem makeDirAfter_makes (h : ∀ t, Makes parts t (leaves (above t))) (hpath : parts path) (t : Tree) :
    Makes parts t (leaves (Action.makeDirAfter above path t)) := by
  unfold Action.makeDirAfter
  split
  · rename_i t' hmake
    exact .made hpath hmake (.done t')
  · have habove := h t
    split
    · rename_i fault t' hresult
      rw [hresult] at habove
      exact habove
    · rename_i t' hresult
      rw [hresult] at habove
      split
      · rename_i t'' hmake
        exact habove.trans (.made hpath hmake (.done t''))
      · split <;> exact habove
  · split <;> exact .done t

theorem createComponents_makes {cs : List Component}
    (h : ∀ first, first <+: cs.reverse → first ≠ [] → parts (ofComponents first)) (t : Tree) :
    Makes parts t (leaves (Action.createComponents cs t)) := by
  induction cs generalizing t with
  | nil => exact .done t
  | cons last above ih =>
    have hinit : above.reverse <+: (last :: above).reverse := by
      rw [List.reverse_cons]
      exact List.prefix_append _ _
    have habove := ih fun first hfirst hne => h first (hfirst.trans hinit) hne
    exact makeDirAfter_makes habove (h _ List.prefix_rfl (by simp)) t

theorem createDirs_makes (path : String) (t : Tree) : Makes (PartOf path) t (leaves (Action.createDirs path t)) := by
  unfold Action.createDirs
  split
  · exact .done t
  · refine makeDirAfter_makes (createComponents_makes fun first hfirst hne => .inr ⟨first, ?_, hne, rfl⟩) (.inl rfl) t
    rw [List.tail_reverse, List.reverse_reverse] at hfirst
    exact hfirst.trans (List.dropLast_prefix _)

def AddsOnly (current down : Key) (action : Action Unit) : Prop :=
  ∀ t : Tree, t.WellFormed → t.current = current → AddsDirs down t (leaves (action t))

theorem Makes.addsDirs (h : Makes parts t t') (ht : t.WellFormed) (hcurrent : t.current = current)
    (hdown : ∀ (t : Tree) (part : String), t.current = current → parts part → t.keyOf part <+: down) :
    AddsDirs down t t' := by
  induction h with
  | done t => exact .refl ht
  | made hpart hmake hmore ih =>
    have hadds := makeDir_addsDirs ht hmake (hdown _ _ hcurrent hpart)
    exact hadds.trans (ih hadds.wellFormed (hadds.current.trans hcurrent))

theorem createComponents_addsOnly {cs : List Component}
    (hdown : ∀ t : Tree, t.current = current → ∀ first, first <+: cs.reverse → first ≠ [] →
      t.keyOf (ofComponents first) <+: down) :
    AddsOnly current down (Action.createComponents cs) := by
  intro t ht hcurrent
  have hmakes : Makes (fun part => ∃ first, first <+: cs.reverse ∧ first ≠ [] ∧ part = ofComponents first) t
      (leaves (Action.createComponents cs t)) :=
    createComponents_makes (fun first hfirst hne => ⟨first, hfirst, hne, rfl⟩) t
  refine hmakes.addsDirs ht hcurrent fun t part ht' hpart => ?_
  obtain ⟨first, hfirst, hne, rfl⟩ := hpart
  exact hdown t ht' first hfirst hne

theorem createDirs_addsOnly (hup : .up ∉ components path)
    (hdown : ∀ t : Tree, t.current = current → t.keyOf path <+: down) :
    AddsOnly current down (Action.createDirs path) := by
  refine fun t ht hcurrent => (createDirs_makes path t).addsDirs ht hcurrent fun t part ht' hpart => ?_
  rcases hpart with rfl | ⟨first, hfirst, hne, rfl⟩
  · exact hdown t ht'
  · exact (keyOf_first_components t hup hne hfirst).trans (hdown t ht')

end ContestTests.Tree
