import ContestTests.Proofs.Tree.WellFormed

/-!
# What stands below a directory

The listings of a tree, said through its view.
-/

namespace ContestTests.Tree

variable {t : Tree} {base key way : Key} {entry : Entry} {name : String}

theorem isFileAt_iff : t.isFileAt key ↔ ∃ content, t.find? key = some (.file content) := by
  unfold isFileAt
  split <;> simp_all

theorem below?_eq_some : below? base key = some way ↔ key = base ++ way ∧ way ≠ [] := by
  unfold below?
  constructor
  · intro h
    split at h
    · rename_i hbelow
      obtain ⟨hinit, hlength⟩ := Bool.and_eq_true_iff.mp hbelow
      obtain ⟨way, rfl⟩ := List.isPrefixOf_iff_prefix.mp hinit
      rw [List.drop_left] at h
      cases h
      refine ⟨rfl, ?_⟩
      rintro rfl
      simp at hlength
    · cases h
  · rintro ⟨rfl, hway⟩
    have hlength : 0 < way.length := List.length_pos_iff.mpr hway
    rw [if_pos, List.drop_left]
    simp [hlength]

theorem mem_contents : (way, entry) ∈ t.contents base ↔ way ≠ [] ∧ (base ++ way, entry) ∈ t.entries := by
  unfold contents
  rw [List.mem_filterMap]
  constructor
  · rintro ⟨⟨key, e⟩, hmem, h⟩
    obtain ⟨w, hw, he⟩ := Option.map_eq_some_iff.mp h
    cases he
    obtain ⟨rfl, hway⟩ := below?_eq_some.mp hw
    exact ⟨hway, hmem⟩
  · rintro ⟨hway, hmem⟩
    exact ⟨_, hmem, Option.map_eq_some_iff.mpr ⟨way, below?_eq_some.mpr ⟨rfl, hway⟩, rfl⟩⟩

theorem WellFormed.mem_contents_iff (ht : t.WellFormed) :
    (way, entry) ∈ t.contents base ↔ way ≠ [] ∧ t.find? (base ++ way) = some entry := by
  rw [mem_contents]
  refine and_congr_right fun hway => ⟨ht.find?_of_mem, mem_of_find? ?_⟩
  simp [hway]

theorem WellFormed.mem_directoriesBelow (ht : t.WellFormed) :
    way ∈ t.directoriesBelow base ↔ way ≠ [] ∧ t.find? (base ++ way) = some .directory := by
  rw [← ht.mem_contents_iff, directoriesBelow, List.mem_filterMap]
  constructor
  · rintro ⟨⟨w, e⟩, hmem, h⟩
    cases e with
    | directory =>
      cases h
      exact hmem
    | file content => cases h
  · exact fun hmem => ⟨_, hmem, rfl⟩

theorem WellFormed.contents_nodup (ht : t.WellFormed) (base : Key) :
    (t.contents base).Pairwise fun a b => a.1 ≠ b.1 := by
  refine List.pairwise_filterMap.mpr ((List.pairwise_map.mp ht.nodup).imp fun {a b} hne => ?_)
  rintro ⟨w, e⟩ ha ⟨w', e'⟩ hb
  obtain ⟨v, hv, he⟩ := Option.map_eq_some_iff.mp ha
  obtain ⟨v', hv', he'⟩ := Option.map_eq_some_iff.mp hb
  cases he
  cases he'
  rintro rfl
  exact hne ((below?_eq_some.mp hv).1.trans (below?_eq_some.mp hv').1.symm)

theorem WellFormed.filterMap_contents_nodup (ht : t.WellFormed) (base : Key) {pick : Key × Entry → Option Key}
    (hpick : ∀ e way, pick e = some way → e.1 = way) : ((t.contents base).filterMap pick).Nodup := by
  refine List.pairwise_filterMap.mpr ((ht.contents_nodup base).imp fun {a b} hne v hv v' hv' => ?_)
  rw [← hpick a v hv, ← hpick b v' hv']
  exact hne

theorem WellFormed.directoriesBelow_nodup (ht : t.WellFormed) (base : Key) : (t.directoriesBelow base).Nodup := by
  refine ht.filterMap_contents_nodup base ?_
  rintro ⟨w, e⟩ way h
  cases e with
  | file content => cases h
  | directory => exact Option.some.inj h

theorem onlyName?_eq_some : onlyName? way = some name ↔ way = [name] := by
  unfold onlyName?
  split
  · simp
  · rename_i hother
    simpa using hother name

theorem WellFormed.mem_namesIn (ht : t.WellFormed) :
    name ∈ t.namesIn base ↔ ∃ entry, t.find? (base ++ [name]) = some entry := by
  rw [namesIn, List.mem_filterMap]
  constructor
  · rintro ⟨⟨way, entry⟩, hmem, hname⟩
    obtain rfl := onlyName?_eq_some.mp hname
    exact ⟨entry, (ht.mem_contents_iff.mp hmem).2⟩
  · rintro ⟨entry, hfind⟩
    exact ⟨([name], entry), ht.mem_contents_iff.mpr ⟨by simp, hfind⟩, rfl⟩

theorem WellFormed.namesIn_nodup (ht : t.WellFormed) (base : Key) : (t.namesIn base).Nodup := by
  refine List.pairwise_filterMap.mpr ((ht.contents_nodup base).imp fun {a b} hne v hv v' hv' he => hne ?_)
  rw [onlyName?_eq_some.mp hv, onlyName?_eq_some.mp hv', he]

theorem WellFormed.length_le_depthBelow (ht : t.WellFormed) (hdir : t.find? (base ++ way) = some .directory) :
    way.length ≤ t.depthBelow base := by
  have hle (l : List Nat) (n : Nat) (hn : n ∈ l) : n ≤ l.foldr max 0 := by
    induction l with
    | nil => cases hn
    | cons m l ih =>
      rcases List.mem_cons.mp hn with rfl | hn
      · exact Nat.le_max_left _ _
      · exact Nat.le_trans (ih hn) (Nat.le_max_right _ _)
  by_cases hway : way = []
  · rw [hway]
    exact Nat.zero_le _
  · have hmem : way ∈ t.directoriesBelow base := ht.mem_directoriesBelow.mpr ⟨hway, hdir⟩
    exact hle _ _ (List.mem_map_of_mem hmem)

theorem find?_eq_none_iff (hkey : key ≠ []) : t.find? key = none ↔ ∀ entry, (key, entry) ∉ t.entries := by
  rw [find?, if_neg hkey, List.lookup_eq_none_iff]
  constructor
  · intro h entry hmem
    simpa using h _ hmem
  · rintro h ⟨k, entry⟩ hmem
    rw [bne_iff_ne]
    rintro rfl
    exact h entry hmem

theorem isEmptyAt_iff : t.isEmptyAt base ↔ ∀ way, way ≠ [] → t.find? (base ++ way) = none := by
  rw [isEmptyAt, List.isEmpty_iff, List.eq_nil_iff_forall_not_mem]
  constructor
  · intro h way hway
    rw [find?_eq_none_iff (by simp [hway])]
    exact fun entry hmem => h (way, entry) (mem_contents.mpr ⟨hway, hmem⟩)
  · rintro h ⟨way, entry⟩ hmem
    obtain ⟨hway, hentry⟩ := mem_contents.mp hmem
    exact (find?_eq_none_iff (by simp [hway])).mp (h way hway) entry hentry

end ContestTests.Tree
