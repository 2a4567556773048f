import ContestTests.Proofs.Conversion.Script
import ContestTests.Proofs.Tree.Descent
import Mathlib.Data.List.Nodup

/-!
# Cleaning up

Cleaning up visits every directory below a root, in whatever order directories tell what is in them, and
removes those in which nothing stands when it leaves them. Whatever happens, only directories without files
go, each after those below it. If every directory can be read, and the path of the root goes through none
that goes, then all of them go: when a directory is left, the directories still in it hold files.
-/

namespace ContestTests

open ContestTests.Path
open ContestTests.Task (pathTo pathTo_concat keyOf_pathTo)

variable {t t' t₁ : Tree} {base key way above : Key} {ways more : List Key} {root name : String} {names : List String}

-- ---------------------------------------------------------------------------
-- Directories without files
-- ---------------------------------------------------------------------------

def Tree.FileFree (t : Tree) (key : Key) : Prop := ∀ way, t.fileAt (key ++ way) = none

theorem Tree.FileFree.below (h : t.FileFree key) (way : Key) : t.FileFree (key ++ way) := fun w => by
  rw [List.append_assoc]
  exact h (way ++ w)

theorem Tree.fileAt_erase (hfile : t.fileAt key = none) : (t.erase key).fileAt = t.fileAt := by
  funext k
  by_cases hk : k = key
  · subst hk
    by_cases hroot : k = []
    · rw [hroot]
      rfl
    · rw [hfile, fileAt, find?_erase t k k hroot, if_pos rfl]
      rfl
  · rw [fileAt, find?_erase_of_ne hk]
    rfl

theorem Tree.fileFree_of_isEmptyAt (hdir : t.find? key = some .directory) (h : t.isEmptyAt key) : t.FileFree key := by
  intro down
  by_cases hdown : down = []
  · rw [hdown, List.append_nil, fileAt, hdir]
    rfl
  · rw [fileAt, isEmptyAt_iff.mp h down hdown]
    rfl

theorem Tree.WellFormed.fileFree (ht : t.WellFormed) (hdir : t.find? key = some .directory)
    (h : (t.contents key).all fun e => e.2 matches .directory) : t.FileFree key := by
  intro way
  cases hfile : t.fileAt (key ++ way) with
  | none => rfl
  | some content =>
    have hfind := Tree.fileAt_eq_some_iff.mp hfile
    by_cases hway : way = []
    · rw [hway, List.append_nil, hdir] at hfind
      cases hfind
    · have hmem := List.all_eq_true.mp h _ (ht.mem_contents_iff.mpr ⟨hway, hfind⟩)
      cases hmem

def Tree.Tidy (t : Tree) (key : Key) : Prop :=
  ∀ down, t.find? (key ++ down) = some .directory → ¬ t.FileFree (key ++ down)

theorem Tree.removeDir_eq_ok : t.removeDir key = .ok t' ↔
    t.find? key = some .directory ∧ t.isEmptyAt key ∧ t' = t.erase key := by
  unfold removeDir
  split
  · simp_all
  · simp_all
  · rename_i hdir
    split
    · rename_i hempty
      simp [hdir, hempty, eq_comm]
    · rename_i hfull
      simp [hfull]

theorem Tree.eraseEmpty_fromRoot (ht : t.fromRoot.WellFormed) (hempty : t.isEmptyAt key) :
    (t.erase key).fromRoot.WellFormed := by
  have hmem (k : Key) (e : Entry) (hk : (k, e) ∈ (t.erase key).fromRoot.entries) : (k, e) ∈ t.fromRoot.entries :=
    (List.mem_filter.mp hk).1
  refine ⟨ht.nodup.sublist (List.filter_sublist.map _), fun k e hk => ht.nonroot k e (hmem k e hk),
    fun k e hk => ht.names k e (hmem k e hk), fun k name e hk => ?_, rfl⟩
  have hdir := ht.above k name e (hmem _ e hk)
  refine (Tree.find?_erase_of_ne ?_).trans hdir
  rintro rfl
  have hnone := Tree.isEmptyAt_iff.mp hempty [name] (by simp)
  exact absurd (ht.find?_of_mem (hmem _ e hk)) (by rw [show t.fromRoot.find? (k ++ [name]) = none from hnone]; simp)

-- ---------------------------------------------------------------------------
-- Empty directories go
-- ---------------------------------------------------------------------------

namespace Conversion

/-- Directories below a base go one after the other, each when nothing stands in it. -/
inductive Prunes (base : Key) : List Key → Tree → Tree → Prop where
  | done (t : Tree) : Prunes base [] t t
  | erase {t t' : Tree} {way : Key} {ways : List Key} (hway : way ≠ [])
      (hdir : t.find? (base ++ way) = some .directory) (hempty : t.isEmptyAt (base ++ way))
      (hrest : Prunes base ways (t.erase (base ++ way)) t') : Prunes base (way :: ways) t t'

namespace Prunes

theorem append (h : Prunes base ways t t₁) (hmore : Prunes base more t₁ t') : Prunes base (ways ++ more) t t' := by
  induction h with
  | done => exact hmore
  | erase hway hdir hempty _ ih => exact .erase hway hdir hempty (ih hmore)

theorem fileAt (h : Prunes base ways t t') : t'.fileAt = t.fileAt := by
  induction h with
  | done => rfl
  | @erase t t' way ways _ hdir _ _ ih =>
    have hfile : t.fileAt (base ++ way) = none := by
      rw [Tree.fileAt, hdir]
      rfl
    exact ih.trans (Tree.fileAt_erase hfile)

theorem fileFree (h : Prunes base ways t t') : t'.FileFree key ↔ t.FileFree key := by
  rw [Tree.FileFree, h.fileAt]
  rfl

theorem current (h : Prunes base ways t t') : t'.current = t.current := by
  induction h with
  | done => rfl
  | erase _ _ _ _ ih => exact ih

theorem fromRoot (h : Prunes base ways t t') (ht : t.fromRoot.WellFormed) : t'.fromRoot.WellFormed := by
  induction h with
  | done => exact ht
  | erase _ _ hempty _ ih => exact ih (Tree.eraseEmpty_fromRoot ht hempty)

theorem find? (h : Prunes base ways t t') (key : Key) :
    t'.find? key = if key ∈ ways.map (base ++ ·) then none else t.find? key := by
  induction h with
  | done => simp
  | @erase t t' way ways hway _ _ _ ih =>
    rw [ih]
    by_cases hkey : key = base ++ way
    · subst hkey
      rw [Tree.find?_erase t _ _ (by simp [hway])]
      simp
    · rw [Tree.find?_erase_of_ne hkey]
      simp [hkey]

/-- What went was a directory without files from the start. -/
theorem freed (h : Prunes base ways t t') :
    ∀ way ∈ ways, way ≠ [] ∧ t.find? (base ++ way) = some .directory ∧ t.FileFree (base ++ way) := by
  induction h with
  | done => simp
  | @erase t t' way ways hway hdir hempty hrest ih =>
    have hfree : t.FileFree (base ++ way) := Tree.fileFree_of_isEmptyAt hdir hempty
    refine List.forall_mem_cons.mpr ⟨⟨hway, hdir, hfree⟩, fun w hw => ?_⟩
    obtain ⟨hne, hfind, hwfree⟩ := ih w hw
    have hother : base ++ w ≠ base ++ way := by
      intro he
      rw [he, Tree.find?_erase t _ _ (by simp [hway]), if_pos rfl] at hfind
      cases hfind
    rw [Tree.find?_erase_of_ne hother] at hfind
    rw [(Prunes.erase hway hdir hempty (.done _)).fileFree] at hwfree
    exact ⟨hne, hfind, hwfree⟩

theorem ordered (h : Prunes base ways t t') : ways.Pairwise fun a b => ¬ a <+: b := by
  induction h with
  | done => exact .nil
  | @erase t t' way ways hway hdir hempty hrest ih =>
    refine List.pairwise_cons.mpr ⟨fun w hw hdown => ?_, ih⟩
    obtain ⟨down, rfl⟩ := hdown
    obtain ⟨-, hfind, -⟩ := hrest.freed _ hw
    by_cases hdown : down = []
    · rw [hdown, List.append_nil, Tree.find?_erase t _ _ (by simp [hway]), if_pos rfl] at hfind
      cases hfind
    · rw [← List.append_assoc, Tree.find?_erase_of_ne (by simp [hdown]), Tree.isEmptyAt_iff.mp hempty down hdown] at hfind
      cases hfind

theorem nodup (h : Prunes base ways t t') : ways.Nodup :=
  List.Pairwise.imp (fun {a b} hab (he : a = b) => hab (he ▸ List.prefix_refl a)) h.ordered

theorem directory (h : Prunes base ways t t') (hdir : t'.find? key = some .directory) : t.find? key = some .directory := by
  rw [h.find?] at hdir
  split at hdir
  · cases hdir
  · exact hdir

theorem stays (h : Prunes base ways t t') (hdir : t.find? key = some .directory)
    (hheld : (∃ way, way ≠ [] ∧ key = base ++ way) → ¬ t.FileFree key) : t'.find? key = some .directory := by
  rw [h.find?, if_neg, hdir]
  rintro hmem
  obtain ⟨way, hway, rfl⟩ := List.mem_map.mp hmem
  obtain ⟨hne, -, hfree⟩ := h.freed way hway
  exact hheld ⟨way, hne, rfl⟩ hfree

theorem tidy (h : Prunes base ways t t') (htidy : t.Tidy key) : t'.Tidy key := fun down hdir hfree =>
  htidy down (h.directory hdir) (h.fileFree.mp hfree)

end Prunes

-- ---------------------------------------------------------------------------
-- What cleaning up may do
-- ---------------------------------------------------------------------------

/-- A listing tells each directory in a directory once. -/
structure Faithful (listing : Listing) : Prop where
  nodup : ∀ t key, t.fromRoot.WellFormed → (listing t key).Nodup
  mem : ∀ t key name, t.fromRoot.WellFormed → (name ∈ listing t key ↔ t.find? (key ++ [name]) = some .directory)

theorem faithful_directoryNames : Faithful Tree.directoryNames := by
  refine ⟨fun t key ht => ?_, fun t key name ht => ?_⟩
  · refine List.Nodup.filterMap (fun a a' b ha ha' => ?_) (ht.directoriesBelow_nodup key)
    exact (Tree.onlyName?_eq_some.mp ha).trans (Tree.onlyName?_eq_some.mp ha').symm
  · rw [Tree.directoryNames, List.mem_filterMap]
    simp only [Tree.onlyName?_eq_some, exists_eq_right]
    exact ht.mem_directoriesBelow.trans (and_iff_right (by simp))

variable {listing : Listing} {s s' s₁ : Cleanup × Tree} {visit : String → Cleanup × Tree → Cleanup × Tree}
  {places others : Key → Prop}

def Sweeps (root : String) (base : Key) (places : Key → Prop) (s s' : Cleanup × Tree) : Prop :=
  ∃ ways, s'.1.removed = s.1.removed ++ ways.map (pathTo root) ∧ Prunes base ways s.2 s'.2 ∧ ∀ way ∈ ways, places way

namespace Sweeps

theorem of_tree_eq (hremoved : s'.1.removed = s.1.removed) (htree : s'.2 = s.2) : Sweeps root base places s s' :=
  ⟨[], by simp [hremoved], htree ▸ .done _, by simp⟩

theorem trans (h : Sweeps root base places s s₁) (h' : Sweeps root base places s₁ s') : Sweeps root base places s s' := by
  obtain ⟨ways, hremoved, hprunes, hplaces⟩ := h
  obtain ⟨more, hremoved', hprunes', hplaces'⟩ := h'
  refine ⟨ways ++ more, ?_, hprunes.append hprunes', fun way hway => ?_⟩
  · rw [hremoved', hremoved, List.append_assoc, List.map_append]
  · exact (List.mem_append.mp hway).elim (hplaces way) (hplaces' way)

theorem mono (h : Sweeps root base places s s') (hothers : ∀ way, places way → others way) :
    Sweeps root base others s s' := by
  obtain ⟨ways, hremoved, hprunes, hplaces⟩ := h
  exact ⟨ways, hremoved, hprunes, fun way hway => hothers way (hplaces way hway)⟩

theorem find?_apart (h : Sweeps root base places s s') (hapart : ¬ places way) :
    s'.2.find? (base ++ way) = s.2.find? (base ++ way) := by
  obtain ⟨ways, -, hprunes, hplaces⟩ := h
  rw [hprunes.find?, if_neg]
  intro hmem
  obtain ⟨w, hw, he⟩ := List.mem_map.mp hmem
  rw [List.append_cancel_left he] at hw
  exact hapart (hplaces way hw)

end Sweeps

theorem leave_sweeps (hway : IsWay way) (hne : way ≠ []) (hbase : s.2.keyOf root = base) :
    Sweeps root base (way <+: ·) s (leave (pathTo root way) s) := by
  obtain ⟨c, t⟩ := s
  unfold leave
  dsimp only
  split
  · exact .of_tree_eq rfl rfl
  · rename_i key hkey
    obtain rfl : key = base ++ way := by
      rw [Tree.locate_eq_ok (Tree.look_eq_ok.mp (Tree.directoryKey_eq_ok.mp hkey)).1, keyOf_pathTo t root hway, hbase]
    split
    · split
      · rename_i hremove
        obtain ⟨hdir, hempty, rfl⟩ := Tree.removeDir_eq_ok.mp hremove
        exact ⟨[way], rfl, .erase hne hdir hempty (.done _), by simp⟩
      · exact .of_tree_eq rfl rfl
    · exact .of_tree_eq rfl rfl

structure Steady (root : String) (base : Key) (s : Cleanup × Tree) : Prop where
  base : s.2.keyOf root = base
  fromRoot : s.2.fromRoot.WellFormed

theorem Sweeps.steady (h : Sweeps root base places s s') (hs : Steady root base s) : Steady root base s' := by
  obtain ⟨ways, -, hprunes, -⟩ := h
  exact ⟨(Tree.keyOf_congr hprunes.current root).trans hs.base, hprunes.fromRoot hs.fromRoot⟩

theorem visitAll_sweeps (hvisit : ∀ name ∈ names, ∀ s, Steady root base s →
      Sweeps root base (way ++ [name] <+: ·) s (visit (pathTo root (way ++ [name])) s)) (hs : Steady root base s) :
    Sweeps root base (fun w => ∃ name, way ++ [name] <+: w) s (visitAll visit (pathTo root way) names s) := by
  induction names generalizing s with
  | nil => exact .of_tree_eq rfl rfl
  | cons name names ih =>
    obtain ⟨hfirst, hrest⟩ := List.forall_mem_cons.mp hvisit
    have hsweeps : Sweeps root base (fun w => ∃ name, way ++ [name] <+: w) s (visit (pathTo root (way ++ [name])) s) :=
      (hfirst s hs).mono fun _ h => ⟨name, h⟩
    rw [visitAll, ← pathTo_concat]
    exact hsweeps.trans (ih hrest (hsweeps.steady hs))

theorem isName_of_listed (hlisting : Faithful listing) (ht : t.fromRoot.WellFormed) (h : name ∈ listing t key) :
    IsName name :=
  (ht.fits_of_find? ((hlisting.mem t key name ht).mp h) name (by simp)).isName

theorem sweep_sweeps (hlisting : Faithful listing) (depth : Nat) (hway : IsWay way) (hne : way ≠ [])
    (hs : Steady root base s) : Sweeps root base (way <+: ·) s (sweep listing depth (pathTo root way) s) := by
  induction depth generalizing way s with
  | zero => exact .of_tree_eq rfl rfl
  | succ depth ih =>
    obtain ⟨c, t⟩ := s
    unfold sweep
    split
    · exact .of_tree_eq rfl rfl
    · rename_i key hkey
      have hvisited := @visitAll_sweeps base way root (listing t key) _ (sweep listing depth)
        (fun name hname s hs' => ih (hway.concat (isName_of_listed hlisting hs.fromRoot hname)) (by simp) hs') hs
      refine Sweeps.trans (hvisited.mono ?_) (leave_sweeps hway hne (hvisited.steady hs).base)
      exact fun w ⟨name, h⟩ => (List.prefix_append _ _).trans h

theorem cleanUp_sweeps (hlisting : Faithful listing) (ht : t.fromRoot.WellFormed) (hroot : t.directoryKey root = .ok base) :
    Sweeps root base (fun w => ∃ name, [] ++ [name] <+: w) (.nothing, t) (cleanUp listing root t) := by
  have hbase := Tree.locate_eq_ok (Tree.look_eq_ok.mp (Tree.directoryKey_eq_ok.mp hroot)).1
  rw [cleanUp, hroot]
  refine @visitAll_sweeps base [] root _ _ _ (fun name hname s hs => ?_) ⟨hbase.symm, ht⟩
  exact sweep_sweeps hlisting _ (isName_of_listed hlisting ht hname).isWay (by simp) hs

/-- Whatever happens, directories below the root go that hold no file, each after those below it. -/
theorem cleanUp_prunes (hlisting : Faithful listing) (ht : t.fromRoot.WellFormed) (root : String) :
    ∃ ways, (cleanUp listing root t).1.removed = ways.map (pathTo root) ∧
      Prunes (t.keyOf root) ways t (cleanUp listing root t).2 := by
  cases hroot : t.directoryKey root with
  | error fault =>
    rw [cleanUp, hroot]
    exact ⟨[], rfl, .done t⟩
  | ok base =>
    obtain ⟨ways, hremoved, hprunes, -⟩ := cleanUp_sweeps hlisting ht hroot
    rw [← Tree.locate_eq_ok (Tree.look_eq_ok.mp (Tree.directoryKey_eq_ok.mp hroot)).1]
    exact ⟨ways, hremoved, hprunes⟩

theorem removeEmptyDirs_prunes (ht : t.fromRoot.WellFormed) (root : String) :
    ∃ ways, Prunes (t.keyOf root) ways t (removeEmptyDirs root t).2 := by
  obtain ⟨ways, -, hprunes⟩ := cleanUp_prunes faithful_directoryNames ht root
  exact ⟨ways, hprunes⟩

theorem removeEmptyDirs_fileAt_rooted (ht : t.fromRoot.WellFormed) (root : String) :
    (removeEmptyDirs root t).2.fileAt = t.fileAt := by
  obtain ⟨ways, hprunes⟩ := removeEmptyDirs_prunes ht root
  exact hprunes.fileAt

theorem removeEmptyDirs_fileAt (ht : t.WellFormed) (root : String) : (removeEmptyDirs root t).2.fileAt = t.fileAt :=
  removeEmptyDirs_fileAt_rooted ht.fromRoot root

theorem removeEmptyDirs_current (ht : t.fromRoot.WellFormed) (root : String) :
    (removeEmptyDirs root t).2.current = t.current := by
  obtain ⟨ways, hprunes⟩ := removeEmptyDirs_prunes ht root
  exact hprunes.current

theorem removeEmptyDirs_fromRoot (ht : t.fromRoot.WellFormed) (root : String) :
    (removeEmptyDirs root t).2.fromRoot.WellFormed := by
  obtain ⟨ways, hprunes⟩ := removeEmptyDirs_prunes ht root
  exact hprunes.fromRoot ht

-- ---------------------------------------------------------------------------
-- What cleaning up reaches
-- ---------------------------------------------------------------------------

/-- Every directory below the root is found by its path, and the path of the root goes through none of those
that hold no file. -/
structure Approachable (t : Tree) (root : String) (base : Key) : Prop where
  found : t.directoryKey root = .ok base
  readable : ∀ way, way ≠ [] → t.find? (base ++ way) = some .directory → t.directoryKey (pathTo root way) = .ok (base ++ way)
  apart : ∀ way, way ≠ [] → t.Passes root (base ++ way) → ¬ t.FileFree (base ++ way)

theorem Approachable.kept (h : Approachable t root base) (hprunes : Prunes base ways t t') (ht : t.fromRoot.WellFormed) :
    Approachable t' root base := by
  obtain ⟨hlocate, hbase⟩ := Tree.look_eq_ok.mp (Tree.directoryKey_eq_ok.mp h.found)
  have hpasses (k : Key) (hk : t.Passes root k) : t'.find? k = some .directory := by
    refine hprunes.stays ((Tree.locate_iff_passes rfl hlocate).mp hlocate k hk) ?_
    rintro ⟨way, hway, rfl⟩
    exact h.apart way hway hk
  have hlocate' := (Tree.locate_iff_passes hprunes.current hlocate).mpr hpasses
  have hbase' : t'.find? base = some .directory := hprunes.stays hbase fun ⟨way, hway, he⟩ =>
    absurd (List.self_eq_append_right.mp he) hway
  have hfound := Tree.directoryKey_eq_ok.mpr (Tree.look_eq_ok.mpr ⟨hlocate', hbase'⟩)
  refine ⟨hfound, fun way hway hdir => ?_, fun way hway hpass => ?_⟩
  · have hread := h.readable way hway (hprunes.directory hdir)
    have hlimits := Tree.withinLimits_of_locate (Tree.look_eq_ok.mp (Tree.directoryKey_eq_ok.mp hread)).1
    exact Tree.directoryKey_pathTo (hprunes.fromRoot ht) hfound hlimits.short hdir
  · rw [hprunes.fileFree]
    exact h.apart way hway ((Tree.passes_congr hprunes.current).mp hpass)

structure Reached (root : String) (base : Key) (depth : Nat) (s : Cleanup × Tree) : Prop where
  approachable : Approachable s.2 root base
  fromRoot : s.2.fromRoot.WellFormed
  /-- No directory is deeper. -/
  deep : ∀ way, s.2.find? (base ++ way) = some .directory → way.length ≤ depth

theorem Reached.steady {depth : Nat} (h : Reached root base depth s) : Steady root base s :=
  ⟨(Tree.locate_eq_ok (Tree.look_eq_ok.mp (Tree.directoryKey_eq_ok.mp h.approachable.found)).1).symm, h.fromRoot⟩

theorem Sweeps.reached {depth : Nat} (h : Sweeps root base places s s') (hs : Reached root base depth s) :
    Reached root base depth s' := by
  obtain ⟨ways, -, hprunes, -⟩ := h
  exact ⟨hs.approachable.kept hprunes hs.fromRoot, hprunes.fromRoot hs.fromRoot,
    fun way hdir => hs.deep way (hprunes.directory hdir)⟩

theorem Sweeps.tidy (h : Sweeps root base places s s') (htidy : s.2.Tidy key) : s'.2.Tidy key := by
  obtain ⟨ways, -, hprunes, -⟩ := h
  exact hprunes.tidy htidy

theorem Sweeps.directory (h : Sweeps root base places s s') (hdir : s'.2.find? key = some .directory) :
    s.2.find? key = some .directory := by
  obtain ⟨ways, -, hprunes, -⟩ := h
  exact hprunes.directory hdir

/-- In the end nothing has failed and every directory at or below the way holds a file. -/
def Tidies (base way : Key) (s s' : Cleanup × Tree) : Prop :=
  s'.1.failures = s.1.failures ∧ s'.2.Tidy (base ++ way)

/-- A directory without files in which every directory holds one is empty when it is left. -/
theorem leave_tidies {depth : Nat} (hs : Reached root base depth s) (hne : way ≠ [])
    (hdir : s.2.find? (base ++ way) = some .directory)
    (hbelow : ∀ name, s.2.find? (base ++ (way ++ [name])) = some .directory → s.2.Tidy (base ++ (way ++ [name]))) :
    Tidies base way s (leave (pathTo root way) s) := by
  obtain ⟨c, t⟩ := s
  -- A directory further down is in one of those right below.
  have hdeeper (down : Key) (hdown : down ≠ []) (hfind : t.find? (base ++ way ++ down) = some .directory) :
      ¬ t.FileFree (base ++ way ++ down) := by
    obtain ⟨name, down, rfl⟩ := List.exists_cons_of_ne_nil hdown
    have hsplit : base ++ way ++ name :: down = base ++ (way ++ [name]) ++ down := by simp
    rw [hsplit] at hfind ⊢
    refine hbelow name ?_ down hfind
    exact hs.fromRoot.find?_of_prefix hfind (List.prefix_append _ _)
  unfold leave
  dsimp only
  rw [hs.approachable.readable way hne hdir]
  dsimp only
  split
  · rename_i hempty
    rw [Tree.removeDir_eq_ok.mpr ⟨hdir, hempty, rfl⟩]
    refine ⟨rfl, fun down hfind => ?_⟩
    by_cases hdown : down = []
    · rw [hdown, List.append_nil, Tree.find?_erase t _ _ (by simp [hne]), if_pos rfl] at hfind
      cases hfind
    · rw [Tree.find?_erase_of_ne (by simp [hdown]), Tree.isEmptyAt_iff.mp hempty down hdown] at hfind
      cases hfind
  · rename_i hfull
    refine ⟨rfl, fun down hfind hfree => ?_⟩
    by_cases hdown : down = []
    · -- Whatever stands in it would be a file, or a directory that holds one.
      rw [hdown, List.append_nil] at hfree
      refine hfull (Tree.isEmptyAt_iff.mpr fun down hdown => ?_)
      cases hthere : t.find? (base ++ way ++ down) with
      | none => rfl
      | some entry =>
        cases entry with
        | directory => exact absurd (hfree.below down) (hdeeper down hdown hthere)
        | file content =>
          have hfile := hfree down
          rw [Tree.fileAt_eq_some_iff.mpr hthere] at hfile
          cases hfile
    · exact hdeeper down hdown hfind hfree

theorem visitAll_tidies {depth : Nat} (hnames : names.Nodup)
    (hsweeps : ∀ name ∈ names, ∀ s, Steady root base s →
      Sweeps root base (way ++ [name] <+: ·) s (visit (pathTo root (way ++ [name])) s))
    (htidies : ∀ name ∈ names, ∀ s, Reached root base depth s → s.2.find? (base ++ (way ++ [name])) = some .directory →
      Tidies base (way ++ [name]) s (visit (pathTo root (way ++ [name])) s))
    (hs : Reached root base depth s) (hdirs : ∀ name ∈ names, s.2.find? (base ++ (way ++ [name])) = some .directory) :
    (visitAll visit (pathTo root way) names s).1.failures = s.1.failures ∧
      ∀ name ∈ names, (visitAll visit (pathTo root way) names s).2.Tidy (base ++ (way ++ [name])) := by
  induction names generalizing s with
  | nil => exact ⟨rfl, by simp⟩
  | cons name names ih =>
    obtain ⟨hfresh, hnames⟩ := List.nodup_cons.mp hnames
    obtain ⟨hsweep, hsweeps⟩ := List.forall_mem_cons.mp hsweeps
    obtain ⟨htidy, htidies⟩ := List.forall_mem_cons.mp htidies
    obtain ⟨hdir, hdirs⟩ := List.forall_mem_cons.mp hdirs
    have hfirst := hsweep s hs.steady
    obtain ⟨hfailures, hdone⟩ := htidy s hs hdir
    -- The other directories are apart from the first one.
    have hothers : ∀ other ∈ names, (visit (pathTo root (way ++ [name])) s).2.find? (base ++ (way ++ [other])) =
        some .directory := by
      intro other hother
      rw [hfirst.find?_apart, hdirs other hother]
      rintro ⟨down, he⟩
      rw [List.append_assoc] at he
      obtain rfl : name = other := (List.cons.inj (List.append_cancel_left he)).1
      exact hfresh hother
    have hreached := hfirst.reached hs
    obtain ⟨hrestFailures, hrest⟩ := ih hnames hsweeps htidies hreached hothers
    rw [visitAll, ← pathTo_concat]
    refine ⟨hrestFailures.trans hfailures, List.forall_mem_cons.mpr ⟨?_, hrest⟩⟩
    exact (visitAll_sweeps hsweeps hreached.steady).tidy hdone

theorem visited_tidies {depth remaining : Nat} (hlisting : Faithful listing) (hs : Reached root base depth s)
    (hway : IsWay way) (htidies : ∀ name s, Reached root base depth s →
      s.2.find? (base ++ (way ++ [name])) = some .directory →
        Tidies base (way ++ [name]) s (sweep listing remaining (pathTo root (way ++ [name])) s))
    (hdone : s' = visitAll (sweep listing remaining) (pathTo root way) (listing s.2 (base ++ way)) s) :
    s'.1.failures = s.1.failures ∧ Sweeps root base (fun w => ∃ name, way ++ [name] <+: w) s s' ∧
      ∀ name, s'.2.find? (base ++ (way ++ [name])) = some .directory → s'.2.Tidy (base ++ (way ++ [name])) := by
  subst hdone
  have hlisted (name : String) :
      name ∈ listing s.2 (base ++ way) ↔ s.2.find? (base ++ (way ++ [name])) = some .directory := by
    rw [hlisting.mem _ _ _ hs.fromRoot, List.append_assoc]
  have hsweeps : ∀ name ∈ listing s.2 (base ++ way), ∀ s, Steady root base s →
      Sweeps root base (way ++ [name] <+: ·) s (sweep listing remaining (pathTo root (way ++ [name])) s) :=
    fun name hname s' hs' => sweep_sweeps hlisting remaining (hway.concat (isName_of_listed hlisting hs.fromRoot hname))
      (by simp) hs'
  have hall := visitAll_sweeps hsweeps hs.steady
  obtain ⟨hfailures, htidy⟩ := visitAll_tidies (hlisting.nodup _ _ hs.fromRoot) hsweeps
    (fun name _ => htidies name) hs fun name hname => (hlisted name).mp hname
  exact ⟨hfailures, hall, fun name hdir => htidy name ((hlisted name).mpr (hall.directory hdir))⟩

theorem sweep_tidies {depth : Nat} (hlisting : Faithful listing) (remaining : Nat) (hs : Reached root base depth s)
    (hne : way ≠ []) (hdir : s.2.find? (base ++ way) = some .directory) (hdepth : depth < way.length + remaining) :
    Tidies base way s (sweep listing remaining (pathTo root way) s) := by
  induction remaining generalizing way s with
  | zero =>
    have hdeep := hs.deep way hdir
    omega
  | succ remaining ih =>
    obtain ⟨c, t⟩ := s
    have hway : IsWay way := fun name hname =>
      (hs.fromRoot.fits_of_find? hdir name (List.mem_append_right _ hname)).isName
    have hbelow (name : String) (s : Cleanup × Tree) (hs : Reached root base depth s)
        (hname : s.2.find? (base ++ (way ++ [name])) = some .directory) :
        Tidies base (way ++ [name]) s (sweep listing remaining (pathTo root (way ++ [name])) s) := by
      refine ih hs (by simp) hname ?_
      rw [List.length_append, List.length_singleton]
      omega
    unfold sweep
    rw [hs.approachable.readable way hne hdir]
    dsimp only
    obtain ⟨hfailures, hsweeps, htidy⟩ := visited_tidies hlisting hs hway hbelow rfl
    have hapart : ¬ ∃ name, way ++ [name] <+: way := fun ⟨name, hdown⟩ => absurd hdown.length_le (by simp)
    have hthere := (hsweeps.find?_apart hapart).trans hdir
    obtain ⟨hleft, hdone⟩ := leave_tidies (hsweeps.reached hs) hne hthere htidy
    exact ⟨hleft.trans hfailures, hdone⟩

/-- If it can come to every directory, cleaning up leaves none without a file. -/
theorem cleanUp_tidies (hlisting : Faithful listing) (ht : t.fromRoot.WellFormed) (happroach : Approachable t root base) :
    (cleanUp listing root t).1.failures = [] ∧
      ∀ way, way ≠ [] → (cleanUp listing root t).2.find? (base ++ way) = some .directory →
        ¬ (cleanUp listing root t).2.FileFree (base ++ way) := by
  have hs : Reached root base (t.depthBelow base) (.nothing, t) :=
    ⟨happroach, ht, fun way => ht.length_le_depthBelow⟩
  obtain ⟨hfailures, hsweeps, htidy⟩ := @visited_tidies base [] root _ (.nothing, t) (cleanUp listing root t) _
    (t.depthBelow base) hlisting hs (by simp [IsWay])
    (fun name s hs hdir => sweep_tidies hlisting _ hs (by simp) hdir (by simp))
    (by rw [cleanUp, happroach.found, List.append_nil]; rfl)
  refine ⟨hfailures, fun way hway hdir => ?_⟩
  obtain ⟨name, way, rfl⟩ := List.exists_cons_of_ne_nil hway
  have hsplit : base ++ name :: way = base ++ ([] ++ [name]) ++ way := by simp
  have ht' := (hsweeps.reached hs).fromRoot
  rw [hsplit] at hdir ⊢
  exact htidy name (ht'.find?_of_prefix hdir (List.prefix_append _ _)) way hdir

end Conversion

end ContestTests
