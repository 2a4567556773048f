import ContestTests.Proofs.Tree.Below
import ContestTests.Proofs.Tree.Reach
import Mathlib.Data.List.Induction
import Mathlib.Data.List.Infix

/-!
# Paths down from a root

From a path that leads to a directory, names lead to what stands below it, as long as the path does not get too
long. Nothing else can go wrong there: names that stand in a tree fit.
-/

namespace ContestTests

open ContestTests.Path ContestTests.Text

variable {t : Tree} {root base : String} {key way down : Key} {name : String} {entry : Entry}

-- ---------------------------------------------------------------------------
-- Texts
-- ---------------------------------------------------------------------------

theorem Path.isAbsolute_append (h : IsName name) (rest : String) : isAbsolute (name ++ rest) = false := by
  have hne : name.toList ≠ [] := fun he => h.nonempty (String.toList_eq_nil_iff.mp he)
  rw [isAbsolute, String.toList_append, List.head?_append_of_ne_nil _ hne]
  exact h.isAbsolute

theorem Path.join_name_append (root : String) (h : IsName name) (rest : String) :
    join root (name ++ rest) = join root name ++ rest := by
  simp only [join, isAbsolute_append h rest, h.isAbsolute, Bool.false_eq_true, if_false]
  split <;> simp only [String.append_assoc]

theorem Path.join_join_name (root : String) (h : IsName name) {rest : String} (hrest : isAbsolute rest = false) :
    join (join root name) rest = join root name ++ "/" ++ rest := by
  have hlast := Tree.getLast?_join_way root h.isWay (by simp)
  rw [wayText_singleton] at hlast
  have hne : (join root name).isEmpty = false := by
    obtain ⟨slash, -, htext⟩ := toList_join root h.isAbsolute
    have hname : name.toList ≠ [] := fun he => h.nonempty (String.toList_eq_nil_iff.mp he)
    refine Bool.eq_false_iff.mpr fun hempty => ?_
    rw [String.isEmpty_iff.mp hempty] at htext
    exact hname (List.append_eq_nil_iff.mp htext.symm).2
  rw [join, hrest, if_neg (by simp), if_neg (by simp [hne, hlast])]

def Path.slashed (directory : String) (n : Nat) : String := String.ofList (directory.toList ++ List.replicate n '/')

theorem Path.utf8ByteSize_slashed (directory : String) (n : Nat) :
    (slashed directory n).utf8ByteSize = directory.utf8ByteSize + n := by
  have hslashes : Text.bytes (List.replicate n '/') = n := by
    induction n with
    | zero => rfl
    | succ n ih =>
      rw [List.replicate_succ, ← List.singleton_append, Text.bytes_append, ih]
      exact Nat.add_comm 1 n
  rw [slashed, ← Text.bytes, Text.bytes_append, hslashes, Text.bytes_toList]

theorem Path.join_slashed (directory : String) (n : Nat) (hname : IsName name) :
    join (slashed directory (n + 1)) name = slashed directory (n + 1) ++ name := by
  have hlast : (slashed directory (n + 1)).toList.getLast? = some '/' := by
    rw [slashed, String.toList_ofList, List.replicate_succ', ← List.append_assoc, List.getLast?_concat]
  rw [join, hname.isAbsolute, hlast]
  simp

namespace Task

theorem pathTo_slashed (directory : String) (n : Nat) (hname : IsName name) :
    pathTo (slashed directory (n + 1)) [name] = slashed directory (n + 1) ++ name := join_slashed directory n hname

theorem join_wayText (root : String) (hway : IsWay way) (hne : way ≠ []) : join root (wayText way) = pathTo root way := by
  induction way generalizing root with
  | nil => exact absurd rfl hne
  | cons name way ih =>
    obtain ⟨hname, hway⟩ := List.forall_mem_cons.mp hway
    cases way with
    | nil => rw [wayText_singleton]; rfl
    | cons next way =>
      have htext : wayText (name :: next :: way) = name ++ ("/" ++ wayText (next :: way)) := by
        rw [← String.toList_inj]
        simp [wayText, joinTexts, joinWith]
      show _ = pathTo (join root name) (next :: way)
      rw [htext, join_name_append root hname, ← ih (join root name) hway (by simp),
        join_join_name root hname (isAbsolute_wayText hway), String.append_assoc]

theorem directory_wayText (root : String) (hway : IsWay way) : directory root (wayText way) = pathTo root way := by
  by_cases hne : way = []
  · rw [hne]
    rfl
  · rw [Tree.directory_of_ne_nil root hway hne, join_wayText root hway hne]

theorem pathTo_append (root : String) (way down : Key) : pathTo root (way ++ down) = pathTo (pathTo root way) down :=
  List.foldl_append

theorem pathTo_concat (root : String) (way : Key) (name : String) :
    pathTo root (way ++ [name]) = join (pathTo root way) name := pathTo_append root way [name]

theorem keyOf_pathTo (t : Tree) (root : String) (h : IsWay way) : t.keyOf (pathTo root way) = t.keyOf root ++ way := by
  induction way using List.reverseRecOn with
  | nil => exact (List.append_nil _).symm
  | append_singleton way name ih =>
    have hname : IsName name := h name (by simp)
    rw [pathTo_concat, Tree.keyOf_join_name t _ hname, ih fun n hn => h n (List.mem_append_left _ hn), List.append_assoc]

end Task

-- ---------------------------------------------------------------------------
-- Limits
-- ---------------------------------------------------------------------------

namespace Tree

open ContestTests.Task (pathTo pathTo_append pathTo_concat)

theorem join_name_ne_empty (base : String) (h : IsName name) : join base name ≠ "" := by
  intro he
  have hsteps := stepsOf_join_name base h
  rw [he] at hsteps
  simp [stepsOf, pieces, Text.splitOn] at hsteps

theorem nul_not_mem_join_name (hbase : '\x00' ∉ base.toList) (h : Fits name) : '\x00' ∉ (join base name).toList := by
  obtain ⟨slash, hslash, htext⟩ := toList_join base h.isName.isAbsolute
  rw [htext, List.mem_append, List.mem_append]
  rintro ((hmem | hmem) | hmem)
  · exact hbase hmem
  · rcases hslash with rfl | rfl <;> simp at hmem
  · exact h.noNul hmem

/-- A name that fits keeps the limits of the path behind which it stands, unless that gets too long. -/
theorem WithinLimits.join_name (h : WithinLimits base) (hname : Fits name) (hshort : pathFits (join base name)) :
    WithinLimits (join base name) := by
  refine ⟨join_name_ne_empty base hname.isName, nul_not_mem_join_name h.noNul hname, hshort, fun step hstep => ?_⟩
  rw [stepsOf_join_name base hname.isName] at hstep
  rcases List.mem_append.mp hstep with hbase | hlast
  · exact h.names step (List.mem_append_left _ hbase)
  · rw [List.mem_singleton.mp hlast]
    exact decide_eq_true hname.short

theorem pathFits_of_join_name (hname : IsName name) (h : pathFits (join base name)) : pathFits base := by
  obtain ⟨slash, -, htext⟩ := toList_join base hname.isAbsolute
  have hsize : base.utf8ByteSize ≤ (join base name).utf8ByteSize := by
    rw [← bytes_toList (join base name), htext, List.append_assoc, bytes_append, bytes_toList]
    exact Nat.le_add_right _ _
  simp only [pathFits, decide_eq_true_eq] at h ⊢
  omega

theorem pathFits_of_pathTo (hway : IsWay (way ++ down)) (h : pathFits (pathTo root (way ++ down))) :
    pathFits (pathTo root way) := by
  induction down using List.reverseRecOn with
  | nil => rwa [List.append_nil] at h
  | append_singleton down name ih =>
    rw [← List.append_assoc] at h hway
    rw [pathTo_concat] at h
    exact ih (fun n hn => hway n (List.mem_append_left _ hn)) (pathFits_of_join_name (hway name (by simp)) h)

theorem pathTo_ne_empty (hroot : root ≠ "") (hway : IsWay way) : pathTo root way ≠ "" := by
  rcases List.eq_nil_or_concat way with rfl | ⟨above, name, rfl⟩
  · exact hroot
  · rw [List.concat_eq_append] at hway ⊢
    rw [pathTo_concat]
    exact join_name_ne_empty _ (hway name (by simp))

theorem nul_not_mem_pathTo (hroot : '\x00' ∉ root.toList) (hway : ∀ name ∈ way, Fits name) :
    '\x00' ∉ (pathTo root way).toList := by
  induction way using List.reverseRecOn with
  | nil => exact hroot
  | append_singleton way name ih =>
    rw [pathTo_concat]
    exact nul_not_mem_join_name (ih fun n hn => hway n (List.mem_append_left _ hn)) (hway name (by simp))

-- ---------------------------------------------------------------------------
-- What is found
-- ---------------------------------------------------------------------------

/-- As long as the path of the root can be followed, a path down from it can, if it is within the limits. -/
theorem locate_pathTo (ht : t.fromRoot.WellFormed) (hroot : t.locate root = .ok key)
    (hshort : pathFits (pathTo root way)) (hstands : t.find? (key ++ way) = some entry) :
    t.locate (pathTo root way) = .ok (key ++ way) := by
  induction way using List.reverseRecOn generalizing entry with
  | nil =>
    rw [List.append_nil]
    exact hroot
  | append_singleton way name ih =>
    rw [pathTo_concat] at hshort ⊢
    have hname : Fits name := ht.fits_of_find? hstands name (by simp)
    rw [← List.append_assoc] at hstands ⊢
    have habove := ih (pathFits_of_join_name hname.isName hshort) (ht.find?_parent hstands)
    have hlimits := (withinLimits_of_locate habove).join_name hname hshort
    rw [← wayText_singleton name] at hlimits
    have hlocate := locate_join_way ht hlimits habove hname.isName.isWay (by simp) hstands
    rwa [wayText_singleton] at hlocate

theorem look_pathTo (ht : t.fromRoot.WellFormed) (hroot : t.locate root = .ok key)
    (hshort : pathFits (pathTo root way)) (hstands : t.find? (key ++ way) = some entry) :
    t.look (pathTo root way) = .ok (key ++ way, entry) :=
  look_eq_ok.mpr ⟨locate_pathTo ht hroot hshort hstands, hstands⟩

theorem directoryKey_pathTo (ht : t.fromRoot.WellFormed) (hroot : t.directoryKey root = .ok key)
    (hshort : pathFits (pathTo root way)) (hdir : t.find? (key ++ way) = some .directory) :
    t.directoryKey (pathTo root way) = .ok (key ++ way) :=
  directoryKey_eq_ok.mpr (look_pathTo ht (look_eq_ok.mp (directoryKey_eq_ok.mp hroot)).1 hshort hdir)

theorem look_of_long (hne : base ≠ "") (hnul : '\x00' ∉ base.toList) (hlong : ¬ pathFits base) :
    t.look base = .error .nameTooLong := by
  have hlocate : t.locate base = .error .nameTooLong := by simp [locate, hne, hnul, hlong]
  rw [look, hlocate]
  rfl

/-- The only fault is that the path is too long. -/
theorem look_pathTo_of_long (ht : t.fromRoot.WellFormed) (hroot : t.locate root = .ok key)
    (hlong : ¬ pathFits (pathTo root way)) (hstands : t.find? (key ++ way) = some entry) :
    t.look (pathTo root way) = .error .nameTooLong := by
  obtain ⟨hne, hnul, -⟩ := locate_eq_ok_iff.mp hroot
  have hfits : ∀ name ∈ way, Fits name := fun name hname =>
    ht.fits_of_find? hstands name (List.mem_append_right _ hname)
  exact look_of_long (pathTo_ne_empty hne fun name hname => (hfits name hname).isName) (nul_not_mem_pathTo hnul hfits) hlong

theorem look_slashed {n : Nat} (h : t.look base = .ok (key, .directory)) (hshort : pathFits (slashed base n)) :
    t.look (slashed base n) = .ok (key, .directory) := by
  obtain ⟨hlocate, hfind⟩ := look_eq_ok.mp h
  obtain ⟨hne, hnul, -, -⟩ := locate_eq_ok_iff.mp hlocate
  have htext : (slashed base n).toList = base.toList ++ List.replicate n '/' := String.toList_ofList
  have hnonempty : base.toList ≠ [] := fun he => hne (String.toList_eq_nil_iff.mp he)
  have hpieces : pieces (slashed base n) = pieces base := by
    rw [pieces, htext]
    exact piecesOf_append_slashes base.toList fun c hc => List.eq_of_mem_replicate hc
  have habs : isAbsolute (slashed base n) = isAbsolute base := by
    rw [isAbsolute, isAbsolute, htext, List.head?_append_of_ne_nil _ hnonempty]
  refine look_eq_ok.mpr ⟨locate_eq_ok_iff.mpr ⟨?_, ?_, hshort, ?_⟩, hfind⟩
  · intro he
    rw [he] at htext
    simp [hnonempty] at htext
  · rw [htext]
    simp [hnul, List.mem_replicate]
  · rw [stepsOf, hpieces, habs, follow_append, follow_pieces hlocate]
    show t.follow key _ = _
    split
    · exact follow_cons_eq_ok.mpr ⟨hfind, rfl, rfl⟩
    · rfl

theorem list_pathTo (ht : t.fromRoot.WellFormed) (hroot : t.locate root = .ok key)
    (hdir : t.find? (key ++ way) = some .directory) : t.list (pathTo root way) =
      if pathFits (pathTo root way) then .ok (t.namesIn (key ++ way)) else .error .nameTooLong := by
  split
  · rename_i hshort
    rw [list, directoryKey_eq_ok.mpr (look_pathTo ht hroot hshort hdir)]
    rfl
  · rename_i hlong
    rw [list, directoryKey, look_pathTo_of_long ht hroot hlong hdir]
    rfl

theorem unblocked_iff : t.Unblocked key ↔ ∀ k ∈ key.inits, t.isFileAt k = false := by
  refine forall_congr' fun k => ?_
  rw [List.mem_inits, ← Bool.not_eq_true, isFileAt_iff, not_exists]

instance : Decidable (t.Unblocked key) := decidable_of_iff _ unblocked_iff.symm

end Tree

end ContestTests
