import ContestTests.Proofs.Tree.Changes
import Mathlib.Data.List.TakeWhile

/-!
# Paths that can be followed

A path within the limits of the operating system can be followed as soon as its parent is there. A
directory can be made with all that is missing above it, if no file is in the way and the path does not
end in a dot.
-/

namespace ContestTests

open ContestTests.Text

-- ---------------------------------------------------------------------------
-- Lengths
-- ---------------------------------------------------------------------------

def Text.bytes (s : List Char) : Nat := (String.ofList s).utf8ByteSize

theorem Text.bytes_append (s t : List Char) : bytes (s ++ t) = bytes s + bytes t := by
  rw [bytes, String.ofList_append, String.utf8ByteSize_append]
  rfl

theorem Text.bytes_toList (s : String) : bytes s.toList = s.utf8ByteSize := by
  rw [bytes, String.ofList_toList]

theorem Text.bytes_joinWith_cons (sep s : List Char) {more : List (List Char)} (h : more ≠ []) :
    bytes (joinWith sep (s :: more)) = bytes s + bytes sep + bytes (joinWith sep more) := by
  cases more with
  | nil => exact absurd rfl h
  | cons t more => rw [joinWith, bytes_append, bytes_append]; simp

theorem Text.bytes_joinWith_le (sep : List Char) {l more : List (List Char)} (h : l.Sublist more) :
    bytes (joinWith sep l) ≤ bytes (joinWith sep more) := by
  induction h with
  | slnil => exact Nat.le_refl _
  | @cons l more s h ih =>
    by_cases hnil : more = []
    · subst hnil
      rw [List.sublist_nil.mp h]
      exact Nat.zero_le _
    · rw [bytes_joinWith_cons sep s hnil]
      omega
  | @cons_cons l more s h ih =>
    by_cases hl : l = []
    · subst hl
      by_cases hnil : more = []
      · subst hnil
        exact Nat.le_refl _
      · rw [bytes_joinWith_cons sep s hnil]
        simp only [joinWith]
        omega
    · have hnil : more ≠ [] := by
        rintro rfl
        exact hl (List.sublist_nil.mp h)
      rw [bytes_joinWith_cons sep s hl, bytes_joinWith_cons sep s hnil]
      omega

theorem Text.mem_joinWith {sep : List Char} {c : Char} {l : List (List Char)} (h : c ∈ joinWith sep l) :
    c ∈ sep ∨ ∃ s ∈ l, c ∈ s := by
  induction l with
  | nil => cases h
  | cons s more ih =>
    cases more with
    | nil => exact .inr ⟨s, List.mem_cons_self, h⟩
    | cons t more =>
      rw [joinWith, List.append_assoc, List.mem_append, List.mem_append] at h
      · rcases h with h | h | h
        · exact .inr ⟨s, List.mem_cons_self, h⟩
        · exact .inl h
        · rcases ih h with hsep | ⟨u, hu, hc⟩
          · exact .inl hsep
          · exact .inr ⟨u, List.mem_cons_of_mem _ hu, hc⟩
      · simp

namespace Path

variable {base path : String} {name : String} {cs : List Component}

theorem text_ofPiece (piece : List Char) : (Component.ofPiece piece).text.toList = piece := by
  unfold Component.ofPiece
  split
  · rename_i h
    rw [h]
    rfl
  · split
    · rename_i h
      rw [h]
      rfl
    · exact String.toList_ofList

/-- Normalizing makes a path no longer. -/
theorem bytes_pieces_le (path : String) :
    bytes (if isAbsolute path then "/" else "").toList + bytes (joinWith ['/'] (pieces path)) ≤ path.utf8ByteSize := by
  rw [← bytes_toList]
  cases habs : isAbsolute path with
  | false =>
    have hle := bytes_joinWith_le ['/'] (@List.filter_sublist _ (fun piece : List Char => !piece.isEmpty)
      (splitOn '/' path.toList))
    rw [joinWith_splitOn] at hle
    have hempty : bytes (if false = true then "/" else "").toList = 0 := rfl
    rw [hempty, Nat.zero_add]
    exact hle
  | true =>
    obtain ⟨s, hs⟩ : ∃ s, path.toList = '/' :: s := List.head?_eq_some_iff.mp (by simpa [isAbsolute] using habs)
    have hpieces : pieces path = piecesOf s := by
      show piecesOf path.toList = _
      rw [hs]
      exact piecesOf_append [] s
    have hle := bytes_joinWith_le ['/'] (@List.filter_sublist _ (fun piece : List Char => !piece.isEmpty)
      (splitOn '/' s))
    rw [joinWith_splitOn] at hle
    have hslash : bytes ('/' :: s) = bytes ['/'] + bytes s := bytes_append ['/'] s
    rw [hpieces, hs, hslash]
    exact Nat.add_le_add_left hle _

end Path

namespace Tree

open ContestTests.Path

variable {t t' t₁ : Tree} {base path : String} {key down : Key} {name : String} {entry : Entry}
  {cs init : List Component} {last : Component} {above : Action Unit}

-- ---------------------------------------------------------------------------
-- Limits
-- ---------------------------------------------------------------------------

structure WithinLimits (path : String) : Prop where
  nonempty : path ≠ ""
  noNul : '\x00' ∉ path.toList
  short : pathFits path
  names : ∀ step ∈ stepsOf path, nameFits step

instance : Decidable (WithinLimits path) :=
  decidable_of_iff (path ≠ "" ∧ '\x00' ∉ path.toList ∧ pathFits path ∧ ∀ step ∈ stepsOf path, nameFits step)
    ⟨fun ⟨hne, hnul, hshort, hnames⟩ => ⟨hne, hnul, hshort, hnames⟩, fun h => ⟨h.nonempty, h.noNul, h.short, h.names⟩⟩

theorem WithinLimits.of_pieces {other : String} (h : WithinLimits path) (hne : other ≠ "")
    (hnul : '\x00' ∉ other.toList) (hsize : other.utf8ByteSize ≤ path.utf8ByteSize)
    (hpieces : ∀ name, .entry name ∈ (pieces other).map Component.ofPiece →
      .entry name ∈ (pieces path).map Component.ofPiece) : WithinLimits other := by
  refine ⟨hne, hnul, ?_, fun step hstep => ?_⟩
  · have hshort := h.short
    simp only [pathFits, decide_eq_true_eq] at hshort ⊢
    omega
  · cases step with
    | root | here | up => rfl
    | entry name =>
      rcases List.mem_append.mp hstep with hmem | hmem
      · exact h.names _ (List.mem_append_left _ (hpieces name hmem))
      · split at hmem <;> simp at hmem

theorem WithinLimits.dropSlash (h : WithinLimits path) : WithinLimits (dropSlash path) := by
  rcases dropSlash_cases path with he | ⟨slashes, hslashes, htext, hne⟩
  · rwa [he]
  · refine h.of_pieces (fun he => hne (String.toList_eq_nil_iff.mpr he)) (fun hmem => h.noNul ?_) ?_ fun name hname => ?_
    · rw [htext]
      exact List.mem_append_left _ hmem
    · rw [← bytes_toList path, htext, bytes_append, bytes_toList]
      exact Nat.le_add_right _ _
    · rwa [← pieces_dropSlash]

theorem WithinLimits.of_join (h : WithinLimits (join base name)) (habs : isAbsolute name = false) (hne : base ≠ "") :
    WithinLimits base := by
  obtain ⟨slash, -, hs⟩ := toList_join base habs
  rw [List.append_assoc] at hs
  refine h.of_pieces hne (fun hmem => h.noNul ?_) ?_ fun n hn => ?_
  · rw [hs]
    exact List.mem_append_left _ hmem
  · rw [← bytes_toList (join base name), hs, bytes_append, bytes_toList]
    exact Nat.le_add_right _ _
  · rw [pieces_join habs, List.map_append]
    exact List.mem_append_left _ hn

theorem WithinLimits.first_components (h : WithinLimits path) (hne : cs ≠ []) (hcs : cs <+: components path) :
    WithinLimits (ofComponents cs) := by
  obtain ⟨first, more, hfirst, -, hsub⟩ := Tree.first_components hne hcs
  have hsub : first.Sublist ((pieces path).map Component.ofPiece) := (List.sublist_append_left _ _).trans hsub
  have hproper := proper_of_sublist hsub
  obtain ⟨hpieces, habs⟩ := pieces_ofComponents (isAbsolute path) hproper
  have htext := ofComponents_rooted (isAbsolute path) hproper
  rw [← hfirst] at hpieces habs htext
  -- The texts of the components are pieces of the path.
  have htexts : ((first.map Component.text).map String.toList).Sublist (pieces path) := by
    have hid : ((pieces path).map Component.ofPiece).map (String.toList ∘ Component.text) = pieces path := by
      rw [List.map_map]
      exact (List.map_congr_left fun piece _ => text_ofPiece piece).trans (List.map_id _)
    rw [List.map_map, ← hid]
    exact hsub.map _
  refine h.of_pieces (fun he => hne ?_) (fun hmem => h.noNul ?_) ?_ fun name hname => ?_
  · rw [he] at hpieces habs
    rw [hfirst, ← hpieces, ← habs]
    rfl
  · rw [htext, String.toList_append] at hmem
    rcases List.mem_append.mp hmem with hmem | hmem
    · split at hmem <;> simp at hmem
    · rw [joinTexts, String.toList_ofList] at hmem
      rcases mem_joinWith hmem with hmem | ⟨s, hs, hc⟩
      · simp at hmem
      · exact (mem_pieces (htexts.mem hs)).2.2 _ hc
  · have hsize := bytes_pieces_le path
    have hjoin := bytes_joinWith_le ['/'] htexts
    rw [htext, String.utf8ByteSize_append, joinTexts]
    rw [bytes_toList] at hsize
    exact Nat.le_trans (Nat.add_le_add_left hjoin _) hsize
  · rw [hpieces] at hname
    exact hsub.mem hname

-- ---------------------------------------------------------------------------
-- Following
-- ---------------------------------------------------------------------------

theorem prefix_of_steps {first more : List Component} (hup : .up ∉ components path)
    (hsplit : stepsOf path = first ++ more) (start : Key) :
    first.foldl stepFrom start <+: (stepsOf path).foldl stepFrom start := by
  rw [hsplit, List.foldl_append]
  exact prefix_foldl_stepFrom (fun c hc => proper_stepsOf c (hsplit ▸ List.mem_append_right _ hc))
    (fun hmem => up_not_mem_stepsOf hup (hsplit ▸ List.mem_append_right _ hmem)) _

theorem withinLimits_of_locate (h : t.locate path = .ok key) : WithinLimits path := by
  obtain ⟨hne, hnul, hshort, hfollow⟩ := locate_eq_ok_iff.mp h
  exact ⟨hne, hnul, hshort, (follow_eq_ok_iff.mp hfollow).2.1⟩

theorem locate_of_last (ht : t.WellFormed) (hlimits : WithinLimits path) (hup : .up ∉ components path)
    (hsteps : stepsOf path = init ++ [last])
    (hdir : t.find? (init.foldl stepFrom (if isAbsolute path then [] else t.current)) = some .directory) :
    t.locate path = .ok (t.keyOf path) := by
  refine locate_eq_ok_iff.mpr ⟨hlimits.nonempty, hlimits.noNul, hlimits.short,
    follow_eq_ok_iff.mpr ⟨(foldl_stepsOf path _).symm, hlimits.names, fun first more hsplit hmore => ?_⟩⟩
  rcases List.eq_nil_or_concat more with hnil | ⟨more, step, rfl⟩
  · exact absurd hnil hmore
  · rw [List.concat_eq_append, ← List.append_assoc, hsteps] at hsplit
    obtain ⟨rfl, -⟩ := List.append_inj' hsplit rfl
    refine ht.find?_of_prefix hdir ?_
    rw [List.foldl_append]
    have hmem (c : Component) (hc : c ∈ more) : c ∈ stepsOf path := by simp [hsteps, hc]
    exact prefix_foldl_stepFrom (fun c hc => proper_stepsOf c (hmem c hc))
      (fun hc => up_not_mem_stepsOf hup (hmem _ hc)) _

theorem locate_of_prefixes (hlimits : WithinLimits path) (hup : .up ∉ components path)
    (hdirs : ∀ key, key <+: t.keyOf path → t.find? key = some .directory) : t.locate path = .ok (t.keyOf path) := by
  refine locate_eq_ok_iff.mpr ⟨hlimits.nonempty, hlimits.noNul, hlimits.short,
    follow_eq_ok_iff.mpr ⟨(foldl_stepsOf path _).symm, hlimits.names, fun first more hsplit _ => hdirs _ ?_⟩⟩
  rw [keyOf, ← foldl_stepsOf]
  exact prefix_of_steps hup hsplit _

theorem locate_of_directory (ht : t.WellFormed) (hlimits : WithinLimits path) (hup : .up ∉ components path)
    (hdir : t.find? (t.keyOf path) = some .directory) : t.locate path = .ok (t.keyOf path) :=
  locate_of_prefixes hlimits hup fun _ hdown => ht.find?_of_prefix hdir hdown

theorem isDirectory_of_find? (ht : t.WellFormed) (hlimits : WithinLimits path) (hup : .up ∉ components path)
    (hdir : t.find? (t.keyOf path) = some .directory) : t.isDirectory path := by
  exact isDirectory_iff.mpr ⟨locate_of_directory ht hlimits hup hdir, hdir⟩

theorem getLast?_joinWith {sep s : List Char} (l : List (List Char)) (hs : s ≠ []) :
    (joinWith sep (l ++ [s])).getLast? = s.getLast? := by
  induction l with
  | nil => rfl
  | cons u l ih =>
    have hjoin : joinWith sep (u :: l ++ [s]) = u ++ sep ++ joinWith sep (l ++ [s]) := by
      cases l <;> rfl
    rw [hjoin, List.getLast?_append_of_ne_nil, ih]
    intro hnil
    rw [hnil, eq_comm, List.getLast?_nil, List.getLast?_eq_none_iff] at ih
    exact hs ih

theorem getLast?_join_way (base : String) {way : Key} (h : IsWay way) (hne : way ≠ []) :
    (join base (Task.wayText way)).toList.getLast? ≠ some '/' := by
  have habs := isAbsolute_wayText h
  obtain ⟨init, name, rfl⟩ : ∃ init name, way = init ++ [name] := by
    rcases List.eq_nil_or_concat way with hnil | ⟨init, name, hway⟩
    · exact absurd hnil hne
    · exact ⟨init, name, hway.trans List.concat_eq_append⟩
  have hname := h name (List.mem_append_right _ List.mem_cons_self)
  have hnonempty : name.toList ≠ [] := fun he => hname.nonempty (String.toList_eq_nil_iff.mp he)
  have htext : (Task.wayText (init ++ [name])).toList.getLast? = name.toList.getLast? := by
    rw [Task.wayText, joinTexts, String.toList_ofList, List.map_append]
    exact getLast?_joinWith _ hnonempty
  have hway : (Task.wayText (init ++ [name])).toList ≠ [] := by
    intro he
    rw [he, List.getLast?_nil, eq_comm, List.getLast?_eq_none_iff] at htext
    exact hnonempty htext
  obtain ⟨slash, -, hs⟩ := toList_join base habs
  rw [hs, List.getLast?_append_of_ne_nil _ hway, htext]
  exact fun hslash => hname.noSlash (List.mem_of_getLast? hslash)

theorem stepsOf_join_way (base : String) {way : Key} (h : IsWay way) (hne : way ≠ []) :
    stepsOf (join base (Task.wayText way)) = (pieces base).map Component.ofPiece ++ way.map Component.entry := by
  rw [stepsOf, if_neg (getLast?_join_way base h hne), pieces_join (isAbsolute_wayText h), pieces_wayText h, List.append_nil,
    List.map_append, map_ofPiece_way h]

theorem stepsOf_join_name (base : String) (h : IsName name) :
    stepsOf (join base name) = (pieces base).map Component.ofPiece ++ [.entry name] := by
  have hsteps := stepsOf_join_way base h.isWay (by simp)
  rwa [wayText_singleton] at hsteps

theorem follow_pieces (h : t.locate path = .ok key) :
    t.follow (if isAbsolute path then [] else t.current) ((pieces path).map Component.ofPiece) = .ok key := by
  obtain ⟨-, -, -, hfollow⟩ := locate_eq_ok_iff.mp h
  rw [stepsOf, follow_append] at hfollow
  obtain ⟨k, hk, hrest⟩ := bind_eq_ok.mp hfollow
  split at hrest
  · obtain ⟨-, -, hend⟩ := follow_cons_eq_ok.mp hrest
    cases hend
    exact hk
  · cases hrest
    exact hk

theorem locate_join_way (ht : t.fromRoot.WellFormed) {way : Key} (hlimits : WithinLimits (join path (Task.wayText way)))
    (hpath : t.locate path = .ok key) (hway : IsWay way) (hne : way ≠ []) (hstands : t.find? (key ++ way) = some entry) :
    t.locate (join path (Task.wayText way)) = .ok (key ++ way) := by
  have hsteps := stepsOf_join_way path hway hne
  have hnames := hlimits.names
  rw [hsteps] at hnames
  refine locate_eq_ok_iff.mpr ⟨hlimits.nonempty, hlimits.noNul, hlimits.short, ?_⟩
  rw [hsteps, isAbsolute_join (isAbsolute_wayText hway), follow_append, follow_pieces hpath]
  refine follow_eq_ok_iff.mpr ⟨(foldl_stepFrom_entries key way).symm, fun step hstep =>
    hnames step (List.mem_append_right _ hstep), fun first more hsplit hmore => ?_⟩
  obtain ⟨above, down, rfl, rfl, rfl⟩ := List.map_eq_append_iff.mp hsplit
  rw [foldl_stepFrom_entries]
  rw [← List.append_assoc] at hstands
  exact ht.find?_above hstands fun hnil => hmore (by rw [hnil]; rfl)

theorem locate_join_name (ht : t.WellFormed) (hlimits : WithinLimits (join base name)) (hup : .up ∉ components base)
    (hname : IsName name) (hdir : t.find? (t.keyOf base) = some .directory) :
    t.locate (join base name) = .ok (t.keyOf base ++ [name]) := by
  rw [← keyOf_join_name t base hname]
  refine locate_of_last ht hlimits (up_not_mem_join_name hname hup) (stepsOf_join_name base hname) ?_
  rw [isAbsolute_join hname.isAbsolute]
  exact hdir

theorem locate_directory (ht : t.fromRoot.WellFormed) {way : Key} (hlimits : WithinLimits (Task.directory path (Task.wayText way)))
    (hpath : t.locate path = .ok key) (hway : IsWay way) (hstands : t.find? (key ++ way) = some entry) :
    t.locate (Task.directory path (Task.wayText way)) = .ok (key ++ way) := by
  by_cases hne : way = []
  · rw [hne, List.append_nil]
    exact hpath
  · rw [directory_of_ne_nil path hway hne] at hlimits ⊢
    exact locate_join_way ht hlimits hpath hway hne hstands

theorem directory_ne_empty {way : Key} (hpath : path ≠ "") (hway : IsWay way) :
    Task.directory path (Task.wayText way) ≠ "" := by
  by_cases hne : way = []
  · rw [hne]
    exact hpath
  · rw [directory_of_ne_nil path hway hne]
    intro hempty
    have hpieces := @pieces_join path _ (isAbsolute_wayText hway)
    rw [hempty, pieces_wayText hway] at hpieces
    exact hne (List.map_eq_nil_iff.mp (List.append_eq_nil_iff.mp hpieces.symm).2)

theorem WithinLimits.of_directory {way : Key} (h : WithinLimits (Task.directory path (Task.wayText way)))
    (hway : IsWay way) (hpath : path ≠ "") : WithinLimits path := by
  by_cases hne : way = []
  · rwa [hne] at h
  · rw [directory_of_ne_nil path hway hne] at h
    exact h.of_join (isAbsolute_wayText hway) hpath

theorem exists?_of_join_way {way : Key} (hway : IsWay way) (hne : way ≠ []) (hpath : path ≠ "")
    (h : t.exists? (join path (Task.wayText way))) : t.exists? path := by
  obtain ⟨-, hlocate, -⟩ := exists?_iff.mp h
  obtain ⟨-, -, -, hfollow⟩ := locate_eq_ok_iff.mp hlocate
  obtain ⟨hnonempty, hnul, hshort, hnames⟩ := (withinLimits_of_locate hlocate).of_join (isAbsolute_wayText hway) hpath
  obtain ⟨name, more, rfl⟩ := List.exists_cons_of_ne_nil hne
  rw [stepsOf_join_way path hway hne, isAbsolute_join (isAbsolute_wayText hway), follow_append] at hfollow
  obtain ⟨key, hkey, hrest⟩ := bind_eq_ok.mp hfollow
  obtain ⟨hdir, -, -⟩ := follow_cons_eq_ok.mp hrest
  have hlocate' : t.locate path = .ok key := by
    refine locate_eq_ok_iff.mpr ⟨hnonempty, hnul, hshort, ?_⟩
    rw [stepsOf, follow_append, hkey]
    show t.follow key _ = _
    split
    · exact follow_cons_eq_ok.mpr ⟨hdir, rfl, rfl⟩
    · rfl
  obtain rfl := locate_eq_ok hlocate'
  exact exists?_iff.mpr ⟨_, hlocate', hdir⟩

theorem exists?_of_join_name (hname : IsName name) (hbase : base ≠ "") (h : t.exists? (join base name)) :
    t.exists? base := by
  rw [← wayText_singleton name] at h
  exact exists?_of_join_way hname.isWay (by simp) hbase h

theorem exists?_of_directory {way : Key} (hway : IsWay way) (hpath : path ≠ "")
    (h : t.exists? (Task.directory path (Task.wayText way))) : t.exists? path := by
  by_cases hne : way = []
  · rwa [hne] at h
  · rw [directory_of_ne_nil path hway hne] at h
    exact exists?_of_join_way hway hne hpath h

theorem exists?_of_directory_name {way : Key} (hway : IsWay way) (hname : IsName name) (hpath : path ≠ "")
    (h : t.exists? (join (Task.directory path (Task.wayText way)) name)) : t.exists? path :=
  exists?_of_directory hway hpath (exists?_of_join_name hname (directory_ne_empty hpath hway) h)

theorem locate_below (ht : t.fromRoot.WellFormed) {way down : Key}
    (hlimits : WithinLimits (join (Task.directory path (Task.wayText way)) (Task.wayText down)))
    (hpath : t.locate path = .ok key) (hway : IsWay way) (hdown : IsWay down) (hne : down ≠ [])
    (hstands : t.find? (key ++ way ++ down) = some entry) :
    t.locate (join (Task.directory path (Task.wayText way)) (Task.wayText down)) = .ok (key ++ way ++ down) := by
  have hnonempty := directory_ne_empty (locate_eq_ok_iff.mp hpath).1 hway
  have habove : t.find? (key ++ way) = some .directory := ht.find?_above hstands hne
  have hdir := locate_directory ht (hlimits.of_join (isAbsolute_wayText hdown) hnonempty) hpath hway habove
  exact locate_join_way ht hlimits hdir hdown hne hstands

theorem find?_of_not_exists (ht : t.WellFormed) (hlimits : WithinLimits (join base name)) (hup : .up ∉ components base)
    (hname : IsName name) (h : t.exists? (join base name) = false) : t.find? (t.keyOf base ++ [name]) = none := by
  cases hfind : t.find? (t.keyOf base ++ [name]) with
  | none => rfl
  | some entry =>
    have hlocate := locate_join_name ht hlimits hup hname (ht.find?_parent hfind)
    exact hfind.symm.trans (find?_of_vacant (Bool.eq_false_iff.mp h) hlocate)

def Passes (t : Tree) (path : String) (key : Key) : Prop :=
  ∃ first more, stepsOf path = first ++ more ∧ more ≠ [] ∧
    key = first.foldl stepFrom (if isAbsolute path then [] else t.current)

theorem passes_congr (hcurrent : t'.current = t.current) : t'.Passes path key ↔ t.Passes path key := by
  rw [Passes, Passes, hcurrent]

/-- A path leads where it led exactly if it goes on from directories as before. -/
theorem locate_iff_passes (hcurrent : t'.current = t.current) (h : t.locate path = .ok key) :
    t'.locate path = .ok key ↔ ∀ k, t.Passes path k → t'.find? k = some .directory := by
  obtain ⟨hne, hnul, hfits, hfollow⟩ := locate_eq_ok_iff.mp h
  obtain ⟨hkey, hnames, -⟩ := follow_eq_ok_iff.mp hfollow
  rw [locate_eq_ok_iff, follow_eq_ok_iff, hcurrent]
  constructor
  · rintro ⟨-, -, -, -, -, habove⟩ k ⟨first, more, hsplit, hmore, rfl⟩
    exact habove first more hsplit hmore
  · intro hpasses
    exact ⟨hne, hnul, hfits, hkey, hnames, fun first more hsplit hmore =>
      hpasses _ ⟨first, more, hsplit, hmore, rfl⟩⟩

theorem locate_of_keeps (hcurrent : t'.current = t.current) (hkeeps : Keeps t t') (h : t.locate path = .ok key) :
    t'.locate path = .ok key :=
  (locate_iff_passes hcurrent h).mpr fun k hk => hkeeps k ((locate_iff_passes rfl h).mp h k hk)

theorem look_of_keeps (hcurrent : t'.current = t.current) (hkeeps : Keeps t t')
    (h : t.look path = .ok (key, .directory)) : t'.look path = .ok (key, .directory) := by
  obtain ⟨hlocate, hdir⟩ := look_eq_ok.mp h
  exact look_eq_ok.mpr ⟨locate_of_keeps hcurrent hkeeps hlocate, hkeeps key hdir⟩

-- ---------------------------------------------------------------------------
-- Making directories
-- ---------------------------------------------------------------------------

def Unblocked (t : Tree) (key : Key) : Prop := ∀ k, k <+: key → ∀ content, t.find? k ≠ some (.file content)

theorem AddsDirs.unblocked (h : AddsDirs down t t₁) (hfree : Unblocked t key) : Unblocked t₁ key := by
  intro k hk content hfile
  rcases h.find? k with he | ⟨-, hdir, -⟩
  · exact hfree k hk content (he ▸ hfile)
  · rw [hdir] at hfile
    cases hfile

theorem follow_or_notFound {steps : List Component} {start : Key} (hnames : ∀ step ∈ steps, nameFits step)
    (hfree : ∀ first more, steps = first ++ more → ∀ content, t.find? (first.foldl stepFrom start) ≠ some (.file content)) :
    (∃ key, t.follow start steps = .ok key) ∨ t.follow start steps = .error .notFound := by
  induction steps generalizing start with
  | nil => exact .inl ⟨start, rfl⟩
  | cons step steps ih =>
    obtain ⟨hname, hnames⟩ := List.forall_mem_cons.mp hnames
    rw [follow]
    split
    · exact .inr rfl
    · rename_i content hfile
      exact absurd hfile (hfree [] _ rfl content)
    · rw [if_pos hname]
      exact ih hnames fun first more hsplit => hfree (step :: first) more (by rw [hsplit, List.cons_append])

/-- Where no file is in the way, a path can only fail because something is missing. -/
theorem locate_or_notFound (hlimits : WithinLimits path) (hup : .up ∉ components path)
    (hfree : Unblocked t (t.keyOf path)) :
    t.locate path = .ok (t.keyOf path) ∨ t.locate path = .error .notFound := by
  have hlocate : t.locate path = t.follow (if isAbsolute path then [] else t.current) (stepsOf path) := by
    unfold locate
    rw [if_neg (by simpa using hlimits.nonempty), if_neg (by simpa using hlimits.noNul),
      if_neg (by simpa using hlimits.short)]
  rw [hlocate]
  have hsteps := @follow_or_notFound t (stepsOf path) (if isAbsolute path then [] else t.current) hlimits.names
    fun first more hsplit content => hfree _ (by
      rw [keyOf, ← foldl_stepsOf]
      exact prefix_of_steps hup hsplit _) content
  rcases hsteps with ⟨key, hkey⟩ | hmissing
  · left
    rw [hkey, (follow_eq_ok_iff.mp hkey).1, foldl_stepsOf]
    rfl
  · exact .inr hmissing

theorem up_not_mem_dropSlash (hup : .up ∉ components path) : .up ∉ components (dropSlash path) := by
  rw [mem_components_iff (by simp) (by simp)] at hup ⊢
  rwa [pieces_dropSlash]

theorem stepsOf_dropSlash (h : pieces path ≠ []) : stepsOf (dropSlash path) = (pieces path).map Component.ofPiece := by
  have hlast : (dropSlash path).toList.getLast? ≠ some '/' := by
    unfold dropSlash
    dsimp only
    split
    · rename_i hempty
      -- A path of slashes alone has no pieces.
      have hall : ∀ c ∈ path.toList, c = '/' := by
        intro c hc
        simpa using List.dropWhile_eq_nil_iff.mp (List.isEmpty_iff.mp hempty) c (List.mem_reverse.mpr hc)
      exact absurd (piecesOf_append_slashes [] hall) h
    · rename_i hne
      rw [String.toList_ofList, List.getLast?_reverse]
      intro hslash
      have hnot := List.head?_dropWhile_not (· == '/') path.toList.reverse
      rw [hslash] at hnot
      simp at hnot
  rw [stepsOf, if_neg hlast, pieces_dropSlash, List.append_nil]

theorem makeDir_of_locate (ht : t.WellFormed) (hlimits : WithinLimits path) (hup : .up ∉ components path)
    (hfree : Unblocked t (t.keyOf path)) (hlocate : t.locate (dropSlash path) = .ok (t.keyOf path)) :
    (∃ t', t.makeDir path = .ok t' ∧ t'.find? (t.keyOf path) = some .directory) ∨
      t.makeDir path = .error .alreadyExists ∧ t.isDirectory path ∧ t.find? (t.keyOf path) = some .directory := by
  cases hfind : t.find? (t.keyOf path) with
  | none =>
    have hne : t.keyOf path ≠ [] := by
      intro he
      rw [he] at hfind
      cases hfind
    refine .inl ⟨t.put (t.keyOf path) .directory, ?_, ?_⟩
    · rw [makeDir, hlocate]
      simp only [bind, Except.bind, hfind]
    · rw [find?_put t _ _ _ hne, if_pos rfl]
  | some entry =>
    cases entry with
    | file content => exact absurd hfind (hfree _ List.prefix_rfl content)
    | directory =>
      refine .inr ⟨?_, isDirectory_of_find? ht hlimits hup hfind, rfl⟩
      rw [makeDir, hlocate]
      simp only [bind, Except.bind, hfind]

theorem makeDirAfter_ok (ht : t.WellFormed) (hlimits : WithinLimits path) (hup : .up ∉ components path)
    (hfree : Unblocked t (t.keyOf path)) (habove : t.find? (t.keyOf path) = some .directory ∨
      ∃ init last t₁, stepsOf (dropSlash path) = init ++ [last] ∧ above t = .ok () t₁ ∧ AddsDirs down t t₁ ∧
        t₁.find? (init.foldl stepFrom (if isAbsolute (dropSlash path) then [] else t.current)) = some .directory) :
    ∃ t', Action.makeDirAfter above path t = .ok () t' ∧ t'.find? (t.keyOf path) = some .directory := by
  have hupDrop := up_not_mem_dropSlash hup
  have hkey := keyOf_dropSlash t path
  have hdone (hlocate : t.locate (dropSlash path) = .ok (t.keyOf path)) :
      ∃ t', Action.makeDirAfter above path t = .ok () t' ∧ t'.find? (t.keyOf path) = some .directory := by
    rcases makeDir_of_locate ht hlimits hup hfree hlocate with ⟨t', hmake, hdir⟩ | ⟨hmake, hthere, hdir⟩
    · exact ⟨t', by rw [Action.makeDirAfter, hmake], hdir⟩
    · exact ⟨t, by simp [Action.makeDirAfter, hmake, hthere], hdir⟩
  rcases habove with hdir | ⟨init, last, t₁, hsteps, habove, hadds, hdir⟩
  · refine hdone ?_
    rw [← hkey] at hdir ⊢
    exact locate_of_directory ht hlimits.dropSlash hupDrop hdir
  · rw [← hkey] at hfree
    rcases locate_or_notFound hlimits.dropSlash hupDrop hfree with hlocate | hmissing
    · exact hdone (hkey ▸ hlocate)
    · have hmake : t.makeDir path = .error .notFound := by
        rw [makeDir, hmissing]
        rfl
      have hsame : t₁.keyOf path = t.keyOf path := keyOf_congr hadds.current path
      have hlocate : t₁.locate (dropSlash path) = .ok (t₁.keyOf path) := by
        rw [← hadds.current] at hdir
        rw [← keyOf_dropSlash t₁]
        exact locate_of_last hadds.wellFormed hlimits.dropSlash hupDrop hsteps hdir
      have hfree₁ : Unblocked t₁ (t₁.keyOf path) := by
        rw [hsame, ← hkey]
        exact hadds.unblocked hfree
      rw [← hsame]
      rcases makeDir_of_locate hadds.wellFormed hlimits hup hfree₁ hlocate with ⟨t', hmake₁, hdir'⟩ | ⟨hmake₁, hthere, hdir'⟩
      · exact ⟨t', by simp only [Action.makeDirAfter, hmake, habove, hmake₁], hdir'⟩
      · exact ⟨t₁, by simp [Action.makeDirAfter, hmake, habove, hmake₁, hthere], hdir'⟩

/-- What is made last is there already, being where the path starts, or it comes behind what is made before. -/
theorem ready_of_above {above : List Component} {last : Component} (hrs : (last :: above).reverse <+: components path)
    (hrec : ∃ t₁, Action.createComponents above t = .ok () t₁ ∧ AddsDirs (t.keyOf path) t t₁ ∧
      t₁.find? (above.reverse.foldl stepFrom t.current) = some .directory) :
    t.find? (t.keyOf (ofComponents (last :: above).reverse)) = some .directory ∨
      ∃ init last' t₁, stepsOf (dropSlash (ofComponents (last :: above).reverse)) = init ++ [last'] ∧
        Action.createComponents above t = .ok () t₁ ∧ AddsDirs (t.keyOf path) t t₁ ∧
        t₁.find? (init.foldl stepFrom (if isAbsolute (dropSlash (ofComponents (last :: above).reverse)) then []
          else t.current)) = some .directory := by
  have hne : (last :: above).reverse ≠ [] := by simp
  obtain ⟨first, more, hfirst, hsplit, hsub⟩ := first_components hne hrs
  have hproper : ∀ c ∈ first, Proper c := fun c hc => proper_of_sublist hsub c (List.mem_append_left _ hc)
  obtain ⟨hpieces, habs⟩ := pieces_ofComponents (isAbsolute path) hproper
  rw [← hfirst] at hpieces habs
  rcases List.eq_nil_or_concat first with hnil | ⟨init, last', hinit⟩
  · left
    rw [keyOf_first t hne hrs, hfirst, hnil]
    cases habs' : isAbsolute path with
    | true => rfl
    | false =>
      rw [hfirst, hnil, habs'] at hne
      exact absurd rfl hne
  · right
    rw [List.concat_eq_append] at hinit
    obtain ⟨t₁, hmake₁, hadds₁, hdir₁⟩ := hrec
    have habove : above.reverse = rooted (isAbsolute path) init := by
      rw [hinit, rooted_append, List.reverse_cons] at hfirst
      exact (List.append_inj' hfirst rfl).1
    refine ⟨init, last', t₁, ?_, hmake₁, hadds₁, ?_⟩
    · rw [stepsOf_dropSlash, hpieces, hinit]
      rintro he
      rw [he, hinit] at hpieces
      simp at hpieces
    · rwa [isAbsolute_dropSlash, habs, ← foldl_rooted, ← habove]

theorem up_notMem_first {rs : List Component} (hup : .up ∉ components path) (hne : rs ≠ []) (hrs : rs <+: components path) :
    .up ∉ components (ofComponents rs) := by
  obtain ⟨first, more, hfirst, hsplit, hsub⟩ := first_components hne hrs
  have hproper : ∀ c ∈ first, Proper c := fun c hc => proper_of_sublist hsub c (List.mem_append_left _ hc)
  obtain ⟨hpieces, -⟩ := pieces_ofComponents (isAbsolute path) hproper
  rw [← hfirst] at hpieces
  rw [mem_components_iff (by simp) (by simp), hpieces]
  exact fun hmem => hup (hsplit ▸ List.mem_append_left _ (hfirst ▸ by unfold rooted; split <;> simp [hmem]))

theorem createComponents_ok (ht : t.WellFormed) (hlimits : WithinLimits path) (hup : .up ∉ components path)
    (hfree : Unblocked t (t.keyOf path)) {rs : List Component} (hrs : rs.reverse <+: components path) :
    ∃ t', Action.createComponents rs t = .ok () t' ∧ AddsDirs (t.keyOf path) t t' ∧
      t'.find? (rs.reverse.foldl stepFrom t.current) = some .directory := by
  induction rs with
  | nil => exact ⟨t, rfl, AddsDirs.refl ht, ht.current⟩
  | cons last above ih =>
    have hne : (last :: above).reverse ≠ [] := by simp
    have hdown : t.keyOf (ofComponents (last :: above).reverse) <+: t.keyOf path :=
      keyOf_first_components t hup hne hrs
    have hadds := createComponents_addsOnly (fun t' ht' init hinit hne' => by
      rw [keyOf_congr ht']
      exact keyOf_first_components t hup hne' (hinit.trans hrs)) t ht rfl
    have hready := ready_of_above hrs (ih (List.IsPrefix.trans (by simp) hrs))
    obtain ⟨t', hmake, hdir⟩ := makeDirAfter_ok ht (hlimits.first_components hne hrs) (up_notMem_first hup hne hrs)
      (fun k hk => hfree k (hk.trans hdown)) hready
    have hresult : Action.createComponents (last :: above) t = .ok () t' := hmake
    rw [hresult] at hadds
    exact ⟨t', hresult, hadds, keyOf_first t hne hrs ▸ hdir⟩

theorem filter_here_append_name (cs : List Component) (name : String) :
    (cs ++ [Component.entry name]).filter (· != .here) = cs.filter (· != .here) ++ [.entry name] := by
  rw [List.filter_append]
  rfl

theorem components_of_name (h : (pieces path).map Component.ofPiece = init ++ [.entry name]) :
    ∃ inner, components path = rooted (isAbsolute path) inner ++ [.entry name] ∧
      ∀ key : Key, inner.foldl stepFrom key = init.foldl stepFrom key := by
  unfold components
  dsimp only
  rw [h]
  cases habs : isAbsolute path with
  | true =>
    refine ⟨init.filter (· != .here), ?_, foldl_filter_here init⟩
    rw [if_pos rfl, filter_here_append_name]
    rfl
  | false =>
    rw [if_neg (by simp)]
    cases init with
    | nil => exact ⟨[], rfl, fun _ => rfl⟩
    | cons first init =>
      cases first with
      | here =>
        refine ⟨.here :: init.filter (· != .here), ?_, fun key => foldl_filter_here init key⟩
        exact congrArg (Component.here :: ·) (filter_here_append_name init name)
      | root | up | entry first =>
        refine ⟨_, ?_, foldl_filter_here (_ :: init)⟩
        exact filter_here_append_name (_ :: init) name

theorem createDirs_ok (ht : t.WellFormed) (hlimits : WithinLimits path) (hup : .up ∉ components path)
    (hfree : Unblocked t (t.keyOf path))
    (hend : t.find? (t.keyOf path) ≠ some .directory → (pieces path).getLast? ≠ some ['.']) :
    ∃ t', Action.createDirs path t = .ok () t' ∧ t'.find? (t.keyOf path) = some .directory := by
  unfold Action.createDirs
  rw [if_neg (by simpa using hlimits.nonempty)]
  by_cases hdir : t.find? (t.keyOf path) = some .directory
  · exact @makeDirAfter_ok t path (t.keyOf path) _ ht hlimits hup hfree (.inl hdir)
  · have hname : ∃ init name, (pieces path).map Component.ofPiece = init ++ [.entry name] := by
      rcases List.eq_nil_or_concat (pieces path) with hnil | ⟨init, last, hlast⟩
      · rw [keyOf, hnil] at hdir
        refine absurd ?_ hdir
        cases isAbsolute path with
        | true => rfl
        | false => exact ht.current
      · rw [List.concat_eq_append] at hlast
        have hhere : last ≠ ['.'] := by
          rintro rfl
          exact hend hdir (by rw [hlast, List.getLast?_concat])
        have hnotUp : last ≠ ['.', '.'] := by
          rintro rfl
          rw [mem_components_iff (by simp) (by simp), hlast, List.map_append] at hup
          exact hup (List.mem_append_right _ List.mem_cons_self)
        refine ⟨init.map Component.ofPiece, String.ofList last, ?_⟩
        rw [hlast, List.map_append, List.map_singleton, Component.ofPiece, if_neg hhere, if_neg hnotUp]
    obtain ⟨init, name, hsteps⟩ := hname
    obtain ⟨inner, hinner, hfold⟩ := components_of_name hsteps
    have htail : (components path).reverse.tail = (rooted (isAbsolute path) inner).reverse := by
      rw [hinner, List.reverse_append]
      rfl
    obtain ⟨t₁, hmake, hadds, hparent⟩ := @createComponents_ok t path ht hlimits hup hfree
      (rooted (isAbsolute path) inner).reverse (by rw [List.reverse_reverse, hinner]; exact List.prefix_append _ _)
    rw [List.reverse_reverse, foldl_rooted, hfold] at hparent
    refine makeDirAfter_ok ht hlimits hup hfree (.inr ⟨init, .entry name, t₁, ?_, htail ▸ hmake, hadds, ?_⟩)
    · rw [stepsOf_dropSlash, hsteps]
      rintro hnil
      rw [hnil] at hsteps
      simp at hsteps
    · rwa [isAbsolute_dropSlash]

end Tree

end ContestTests
