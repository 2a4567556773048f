import ContestTests.Proofs.Tree.Ways

/-!
# Well-formed trees

Every key is there once, its names are names a directory can hold, and everything stands in a
directory. Where a path leads to a key at which nothing stands, the key can be filled.
-/

namespace ContestTests.Tree

open ContestTests.Path ContestTests.Text

variable {t : Tree} {path : String} {key other way : Key} {name : String} {entry : Entry} {steps : List Component}

structure Fits (name : String) : Prop where
  isName : IsName name
  noNul : '\x00' ∉ name.toList
  short : name.utf8ByteSize ≤ 255

instance (name : String) : Decidable (Fits name) :=
  decidable_of_iff (IsName name ∧ '\x00' ∉ name.toList ∧ name.utf8ByteSize ≤ 255)
    ⟨fun ⟨hname, hnul, hshort⟩ => ⟨hname, hnul, hshort⟩, fun h => ⟨h.isName, h.noNul, h.short⟩⟩

structure WellFormed (t : Tree) : Prop where
  nodup : (t.entries.map Prod.fst).Nodup
  nonroot : ∀ key entry, (key, entry) ∈ t.entries → key ≠ []
  names : ∀ key entry, (key, entry) ∈ t.entries → ∀ name ∈ key, Fits name
  above : ∀ key name entry, (key ++ [name], entry) ∈ t.entries → t.find? key = some .directory
  current : t.find? t.current = some .directory

theorem isDirectoryAt_iff : t.isDirectoryAt key ↔ t.find? key = some .directory := by
  unfold isDirectoryAt
  split <;> simp_all

def InPlace (t : Tree) (key : Key) : Prop := key ≠ [] ∧ (∀ name ∈ key, Fits name) ∧ t.isDirectoryAt key.dropLast

instance : Decidable (t.InPlace key) :=
  inferInstanceAs (Decidable (key ≠ [] ∧ (∀ name ∈ key, Fits name) ∧ t.isDirectoryAt key.dropLast = true))

theorem wellFormed_iff : t.WellFormed ↔ (t.entries.map Prod.fst).Nodup ∧ (∀ e ∈ t.entries, t.InPlace e.1) ∧
    t.isDirectoryAt t.current := by
  rw [isDirectoryAt_iff]
  constructor
  · refine fun h => ⟨h.nodup, fun e he => ⟨h.nonroot _ _ he, h.names _ _ he, ?_⟩, h.current⟩
    obtain ⟨key, entry⟩ := e
    rw [isDirectoryAt_iff]
    refine h.above _ (key.getLast (h.nonroot _ _ he)) entry ?_
    rwa [List.dropLast_concat_getLast]
  · rintro ⟨hnodup, hplaces, hcurrent⟩
    refine ⟨hnodup, fun key entry he => (hplaces _ he).1, fun key entry he => (hplaces _ he).2.1, ?_, hcurrent⟩
    intro key name entry he
    have habove := isDirectoryAt_iff.mp (hplaces _ he).2.2
    rwa [List.dropLast_concat] at habove

instance : Decidable t.WellFormed := decidable_of_iff _ wellFormed_iff.symm

@[simp] theorem find?_root (t : Tree) : t.find? [] = some .directory := rfl

theorem lookup_of_mem [BEq α] [LawfulBEq α] {entries : List (α × β)} {key : α} {value : β}
    (hnodup : (entries.map Prod.fst).Nodup) (hmem : (key, value) ∈ entries) : entries.lookup key = some value := by
  induction entries with
  | nil => cases hmem
  | cons e entries ih =>
    obtain ⟨k, v⟩ := e
    obtain ⟨hfresh, hrest⟩ := List.nodup_cons.mp hnodup
    rcases List.mem_cons.mp hmem with he | htail
    · cases he
      rw [List.lookup_cons_self]
    · have hk : key ≠ k := by
        rintro rfl
        exact hfresh (List.mem_map.mpr ⟨_, htail, rfl⟩)
      rw [List.lookup_cons, beq_eq_false_iff_ne.mpr hk]
      exact ih hrest htail

theorem mem_of_find? (hkey : key ≠ []) (h : t.find? key = some entry) : (key, entry) ∈ t.entries := by
  rw [find?, if_neg hkey] at h
  obtain ⟨before, after, he, -⟩ := List.lookup_eq_some_iff.mp h
  simp [he]

theorem find?_erase_of_ne (h : other ≠ key) : (t.erase key).find? other = t.find? other := by
  by_cases hroot : other = []
  · rw [hroot, find?_root, find?_root]
  · rw [find?_erase t key other hroot, if_neg h]

/-- The same files and directories, with relative paths from the root. -/
def fromRoot (t : Tree) : Tree := { t with current := [] }

theorem WellFormed.fromRoot (ht : t.WellFormed) : t.fromRoot.WellFormed :=
  ⟨ht.nodup, ht.nonroot, ht.names, ht.above, rfl⟩

theorem WellFormed.of_fromRoot (ht : t.fromRoot.WellFormed) (hcurrent : t.find? t.current = some .directory) :
    t.WellFormed :=
  ⟨ht.nodup, ht.nonroot, ht.names, ht.above, hcurrent⟩

-- ---------------------------------------------------------------------------
-- Steps up
-- ---------------------------------------------------------------------------

def GroundedFrom (t : Tree) : Key → List Component → Prop
  | _, [] => True
  | key, step :: steps =>
    (step = .up → t.find? key = some .directory) ∧ t.GroundedFrom (stepFrom key step) steps

/-- The path goes up only out of directories that are there. -/
def Grounded (t : Tree) (path : String) : Prop :=
  t.GroundedFrom (if isAbsolute path then [] else t.current) ((pieces path).map Component.ofPiece)

theorem groundedFrom_append {more : List Component} :
    t.GroundedFrom key (steps ++ more) ↔ t.GroundedFrom key steps ∧ t.GroundedFrom (steps.foldl stepFrom key) more := by
  induction steps generalizing key with
  | nil => exact ⟨fun h => ⟨trivial, h⟩, And.right⟩
  | cons step steps ih => rw [List.cons_append, GroundedFrom, GroundedFrom, ih, List.foldl_cons, and_assoc]

theorem groundedFrom_of_no_up (h : .up ∉ steps) : t.GroundedFrom key steps := by
  induction steps generalizing key with
  | nil => trivial
  | cons step steps ih =>
    refine ⟨?_, ih (List.not_mem_of_not_mem_cons h)⟩
    rintro rfl
    exact absurd List.mem_cons_self h

theorem grounded_of_no_up (h : .up ∉ components path) : t.Grounded path :=
  groundedFrom_of_no_up fun hmem => h ((mem_components_iff (by simp) (by simp)).mpr hmem)

theorem groundedFrom_filter_here :
    t.GroundedFrom key (steps.filter (· != .here)) ↔ t.GroundedFrom key steps := by
  induction steps generalizing key with
  | nil => exact Iff.rfl
  | cons step steps ih =>
    by_cases hhere : step = .here
    · subst hhere
      rw [List.filter_cons_of_neg (by simp), ih, GroundedFrom]
      exact (and_iff_right (by simp)).symm
    · rw [List.filter_cons_of_pos (by simpa using hhere), GroundedFrom, GroundedFrom, ih]

theorem groundedFrom_components : t.GroundedFrom t.current (components path) ↔ t.Grounded path := by
  obtain ⟨cs, hcs, -, hfilter⟩ := components_eq path
  have hgrounded (key : Key) : t.GroundedFrom key cs ↔ t.GroundedFrom key ((pieces path).map Component.ofPiece) := by
    rw [← @groundedFrom_filter_here t key cs, hfilter, groundedFrom_filter_here]
  rw [hcs, Grounded, ← hgrounded]
  cases isAbsolute path with
  | false => exact Iff.rfl
  | true => exact and_iff_right (by simp)

theorem grounded_join {base : String} (h : isAbsolute path = false) (hpath : .up ∉ components path) :
    t.Grounded (join base path) ↔ t.Grounded base := by
  rw [mem_components_iff (by simp) (by simp)] at hpath
  rw [Grounded, Grounded, pieces_join h, isAbsolute_join h, List.map_append, groundedFrom_append]
  exact and_iff_left (groundedFrom_of_no_up hpath)

theorem grounded_join_name {base : String} (h : IsName name) : t.Grounded (join base name) ↔ t.Grounded base := by
  have hup := up_not_mem_wayText h.isWay
  rw [wayText_singleton] at hup
  exact grounded_join h.isAbsolute hup

theorem grounded_directory {base : String} (h : IsWay way) :
    t.Grounded (Task.directory base (Task.wayText way)) ↔ t.Grounded base := by
  by_cases hway : way = []
  · rw [hway]
    rfl
  · rw [directory_of_ne_nil base h hway]
    exact grounded_join (isAbsolute_wayText h) (up_not_mem_wayText h)

namespace WellFormed

theorem find?_of_mem (ht : t.WellFormed) (h : (key, entry) ∈ t.entries) : t.find? key = some entry := by
  rw [find?, if_neg (ht.nonroot key entry h)]
  exact lookup_of_mem ht.nodup h

theorem find?_parent (ht : t.WellFormed) (h : t.find? (key ++ [name]) = some entry) :
    t.find? key = some .directory :=
  ht.above key name entry (mem_of_find? (by simp) h)

theorem find?_above (ht : t.WellFormed) (h : t.find? (key ++ way) = some entry) (hway : way ≠ []) :
    t.find? key = some .directory := by
  induction way generalizing key with
  | nil => exact absurd rfl hway
  | cons name way ih =>
    rw [List.append_cons] at h
    cases way with
    | nil => exact ht.find?_parent (by simpa using h)
    | cons name' way => exact ht.find?_parent (ih h (by simp))

theorem find?_of_prefix (ht : t.WellFormed) (h : t.find? key = some .directory) (hdown : other <+: key) :
    t.find? other = some .directory := by
  obtain ⟨way, rfl⟩ := hdown
  by_cases hway : way = []
  · rwa [hway, List.append_nil] at h
  · exact ht.find?_above h hway

theorem fits_of_find? (ht : t.WellFormed) (h : t.find? key = some entry) : ∀ name ∈ key, Fits name := by
  by_cases hkey : key = []
  · simp [hkey]
  · exact ht.names key entry (mem_of_find? hkey h)

-- ---------------------------------------------------------------------------
-- Steps down
-- ---------------------------------------------------------------------------

/-- From where nothing stands, a grounded path only goes further down. -/
theorem prefix_of_missing (ht : t.WellFormed) (hproper : ∀ step ∈ steps, Proper step)
    (hgrounded : t.GroundedFrom key steps) (hmissing : t.find? key = none) : key <+: steps.foldl stepFrom key := by
  induction steps generalizing key with
  | nil => exact List.prefix_rfl
  | cons step steps ih =>
    obtain ⟨hstep, hsteps⟩ := List.forall_mem_cons.mp hproper
    obtain ⟨hup, hrest⟩ := hgrounded
    cases step with
    | root => exact absurd rfl hstep.1
    | here => exact ih hsteps hrest hmissing
    | up =>
      rw [hup rfl] at hmissing
      cases hmissing
    | entry name =>
      have hbelow : t.find? (key ++ [name]) = none := by
        cases hfind : t.find? (key ++ [name]) with
        | none => rfl
        | some entry =>
          rw [ht.find?_parent hfind] at hmissing
          cases hmissing
      exact (List.prefix_append key [name]).trans (ih hsteps hrest hbelow)

theorem prefix_keyOf_of_missing {first : List Component} (ht : t.WellFormed) (hgrounded : t.Grounded path)
    (h : first <+: components path) (hmissing : t.find? (first.foldl stepFrom t.current) = none) :
    first.foldl stepFrom t.current <+: t.keyOf path := by
  by_cases hne : first = []
  · rw [hne, List.foldl_nil, ht.current] at hmissing
    cases hmissing
  obtain ⟨inner, more, -, hsplit, hsub⟩ := first_components hne h
  have hsteps := groundedFrom_components.mpr hgrounded
  rw [hsplit, groundedFrom_append] at hsteps
  rw [← foldl_components, hsplit, List.foldl_append]
  exact ht.prefix_of_missing (fun step hstep => proper_of_sublist hsub step (List.mem_append_right _ hstep)) hsteps.2
    hmissing

-- ---------------------------------------------------------------------------
-- Paths
-- ---------------------------------------------------------------------------

theorem mem_stepsOf_entry (h : Component.entry name ∈ stepsOf path) :
    IsName name ∧ name.toList ∈ pieces path := by
  rcases List.mem_append.mp h with h | h
  · obtain ⟨piece, hpiece, he⟩ := List.mem_map.mp h
    obtain ⟨hname, rfl⟩ := ofPiece_eq_entry hpiece he
    exact ⟨hname, hpiece⟩
  · split at h <;> simp at h

/-- A path leads to a directory or to a name in one. -/
theorem locate_cases (ht : t.WellFormed) (h : t.locate path = .ok key) :
    t.find? key = some .directory ∨
      ∃ above name, key = above ++ [name] ∧ t.find? above = some .directory ∧ Fits name ∧
        (stepsOf path).getLast? = some (.entry name) := by
  obtain ⟨-, hnul, -, hfollow⟩ := locate_eq_ok_iff.mp h
  rcases List.eq_nil_or_concat (stepsOf path) with hsteps | ⟨steps, last, hsteps⟩
  · rw [hsteps] at hfollow
    cases hfollow
    split
    · exact .inl rfl
    · exact .inl ht.current
  · rw [List.concat_eq_append] at hsteps
    rw [hsteps, follow_append] at hfollow
    obtain ⟨above, -, hlast⟩ := bind_eq_ok.mp hfollow
    obtain ⟨habove, hfits, he⟩ := follow_cons_eq_ok.mp hlast
    cases he
    cases last with
    | root => exact .inl rfl
    | here => exact .inl habove
    | up =>
      rcases List.eq_nil_or_concat above with rfl | ⟨parent, name, rfl⟩
      · exact .inl rfl
      · rw [List.concat_eq_append] at habove ⊢
        rw [stepFrom, List.dropLast_concat]
        exact .inl (ht.find?_parent habove)
    | entry name =>
      have hmem : Component.entry name ∈ stepsOf path := by simp [hsteps]
      obtain ⟨hname, hpiece⟩ := mem_stepsOf_entry hmem
      obtain ⟨-, -, hchars⟩ := mem_pieces hpiece
      refine .inr ⟨above, name, rfl, habove, ⟨hname, fun hmem => hnul (hchars _ hmem), by simpa [nameFits] using hfits⟩, ?_⟩
      rw [hsteps, List.getLast?_concat]

theorem parent_of_locate (ht : t.WellFormed) (h : t.locate path = .ok (key ++ [name])) :
    t.find? key = some .directory := by
  rcases ht.locate_cases h with hdir | ⟨above, name', he, hdir, -⟩
  · exact ht.find?_parent hdir
  · rwa [(List.append_inj' he rfl).1]

theorem find?_of_follow (h : t.follow key steps = .ok other) (hstands : t.find? other = some entry) :
    (steps = [] ∧ key = other) ∨ t.find? key = some .directory := by
  cases steps with
  | nil =>
    cases h
    exact .inl ⟨rfl, rfl⟩
  | cons step steps => exact .inr (follow_cons_eq_ok.mp h).1

/-- What stands where steps lead in another tree is found by them if they leave only directories that are there. -/
theorem follow_of_grounded {t' : Tree} (ht : t.WellFormed) (hproper : ∀ step ∈ steps, Proper step)
    (hgrounded : t.GroundedFrom other steps) (h : t'.follow other steps = .ok key)
    (hdir : t'.find? key = some .directory → t.find? key = some .directory) (hstands : t.find? key = some entry) :
    t.follow other steps = .ok key := by
  induction steps generalizing other with
  | nil => exact h
  | cons step steps ih =>
    obtain ⟨hstep, hproper⟩ := List.forall_mem_cons.mp hproper
    obtain ⟨hup, hgrounded⟩ := hgrounded
    obtain ⟨hstart, hfits, hrest⟩ := follow_cons_eq_ok.mp h
    have hfollow := ih hproper hgrounded hrest
    refine follow_cons_eq_ok.mpr ⟨?_, hfits, hfollow⟩
    cases step with
    | root => exact absurd rfl hstep.1
    | up => exact hup rfl
    | here =>
      rcases find?_of_follow hfollow hstands with ⟨-, hend⟩ | hthere
      · obtain rfl : other = key := hend
        exact hdir hstart
      · exact hthere
    | entry name =>
      rcases find?_of_follow hfollow hstands with ⟨-, hend⟩ | hthere
      · exact ht.find?_parent (hend ▸ hstands)
      · exact ht.find?_parent hthere

theorem locate_of_grounded {t' : Tree} (ht : t.WellFormed) (hcurrent : t'.current = t.current)
    (hgrounded : t.Grounded path) (h : t'.locate path = .ok key)
    (hdir : t'.find? key = some .directory → t.find? key = some .directory) (hstands : t.find? key = some entry) :
    t.locate path = .ok key := by
  obtain ⟨hne, hnul, hfits, hfollow⟩ := locate_eq_ok_iff.mp h
  rw [hcurrent] at hfollow
  have hsteps : t.GroundedFrom (if isAbsolute path then [] else t.current) (stepsOf path) :=
    groundedFrom_append.mpr ⟨hgrounded, groundedFrom_of_no_up (by split <;> simp)⟩
  exact locate_eq_ok_iff.mpr ⟨hne, hnul, hfits, ht.follow_of_grounded proper_stepsOf hsteps hfollow hdir hstands⟩

/-- A path that leads to no directory in one tree leads to what stands there in another. -/
theorem locate_of_stands {t' : Tree} (ht : t.WellFormed) (hcurrent : t'.current = t.current)
    (hup : .up ∉ components path) (h : t'.locate path = .ok key) (hdir : t'.find? key ≠ some .directory)
    (hstands : t.find? key = some entry) : t.locate path = .ok key :=
  ht.locate_of_grounded hcurrent (grounded_of_no_up hup) h (fun he => absurd he hdir) hstands

-- ---------------------------------------------------------------------------
-- Changes
-- ---------------------------------------------------------------------------

theorem put (ht : t.WellFormed) (habove : t.find? key = some .directory) (hname : Fits name)
    (h : entry = .directory ∨ t.find? (key ++ [name]) ≠ some .directory) :
    (t.put (key ++ [name]) entry).WellFormed := by
  have hne : key ++ [name] ≠ [] := by simp
  -- Directories stay directories.
  have hkeep (k : Key) (hk : t.find? k = some .directory) :
      (t.put (key ++ [name]) entry).find? k = some .directory := by
    rw [find?_put t _ k entry hne]
    split
    · rename_i he
      rcases h with rfl | h
      · rfl
      · exact absurd (he ▸ hk) h
    · exact hk
  have hmem (k : Key) (e : Entry) (hk : (k, e) ∈ (t.put (key ++ [name]) entry).entries) :
      k = key ++ [name] ∨ (k, e) ∈ t.entries := by
    rcases List.mem_cons.mp hk with he | hk
    · cases he
      exact .inl rfl
    · exact .inr (List.mem_filter.mp hk).1
  refine ⟨?_, fun k e hk => ?_, fun k e hk => ?_, fun k n e hk => ?_, hkeep _ ht.current⟩
  · refine List.nodup_cons.mpr ⟨fun hk => ?_, ht.nodup.sublist (List.filter_sublist.map _)⟩
    obtain ⟨e, he, hfst⟩ := List.mem_map.mp hk
    simpa [hfst] using (List.mem_filter.mp he).2
  · rcases hmem k e hk with rfl | hk
    · exact hne
    · exact ht.nonroot k e hk
  · rcases hmem k e hk with rfl | hk
    · intro n hn
      rcases List.mem_append.mp hn with hn | hn
      · exact ht.fits_of_find? habove n hn
      · rw [List.mem_singleton.mp hn]
        exact hname
    · exact ht.names k e hk
  · rcases hmem _ e hk with he | hk
    · rw [List.append_inj_left' he rfl]
      exact hkeep _ habove
    · exact hkeep _ (ht.above k n e hk)

theorem eraseFile (ht : t.WellFormed) (h : t.find? key = some (.file content)) : (t.erase key).WellFormed := by
  have hkeep (k : Key) (hk : t.find? k = some .directory) : (t.erase key).find? k = some .directory := by
    rw [find?_erase_of_ne, hk]
    rintro rfl
    rw [h] at hk
    cases hk
  have hmem (k : Key) (e : Entry) (hk : (k, e) ∈ (t.erase key).entries) : (k, e) ∈ t.entries :=
    (List.mem_filter.mp hk).1
  exact ⟨ht.nodup.sublist (List.filter_sublist.map _), fun k e hk => ht.nonroot k e (hmem k e hk),
    fun k e hk => ht.names k e (hmem k e hk), fun k n e hk => hkeep k (ht.above k n e (hmem _ e hk)),
    hkeep _ ht.current⟩

end WellFormed

end ContestTests.Tree
