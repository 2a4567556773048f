import ContestTests.Proofs.Tree.Descent
import ContestTests.Task
import Mathlib.Data.List.Nodup
import Mathlib.Data.List.Sort
import Mathlib.Data.String.Basic

/-!
# What a walk meets

A walk meets everything that stands within its depth once, and in the order of the ways compared name by name. It
fails where it has to open a directory whose path is too long, and nowhere else.
-/

namespace ContestTests

variable {t t' : Tree} {root : String} {base key way down : Key} {name : String} {entry : Entry} {depth : Nat}
  {failure : Failure}

namespace Task

-- ---------------------------------------------------------------------------
-- Sorted texts
-- ---------------------------------------------------------------------------

theorem sortTexts_eq_insertionSort (texts : List String) : sortTexts texts = texts.insertionSort (· ≤ ·) := by
  have hinsert (text : String) (texts : List String) : insertText text texts = texts.orderedInsert (· ≤ ·) text := by
    induction texts with
    | nil => rfl
    | cons other texts ih => rw [insertText, List.orderedInsert_cons, ih]
  induction texts with
  | nil => rfl
  | cons text texts ih => rw [sortTexts, List.foldr_cons, ← sortTexts, ih, hinsert, List.insertionSort_cons]

theorem sortTexts_perm (texts : List String) : (sortTexts texts).Perm texts := by
  rw [sortTexts_eq_insertionSort]
  exact List.perm_insertionSort _ _

theorem sortTexts_sorted (texts : List String) : (sortTexts texts).Pairwise fun a b => a ≤ b := by
  rw [sortTexts_eq_insertionSort]
  exact List.pairwise_insertionSort _ _

theorem sortTexts_increasing {texts : List String} (h : texts.Nodup) : (sortTexts texts).Pairwise (· < ·) := by
  have hnodup : (sortTexts texts).Nodup := (sortTexts_perm texts).nodup_iff.mpr h
  exact hnodup.imp₂ (fun a b hne hle => String.not_le.mp fun hba => hne (String.le_antisymm hle hba)) (sortTexts_sorted texts)

-- ---------------------------------------------------------------------------
-- Everything below a key
-- ---------------------------------------------------------------------------

/-- Everything at a key and, so many levels deep, below it, in the order of a walk. -/
def waysBelow (t : Tree) : Nat → Key → List Key
  | 0, _ => [[]]
  | depth + 1, key =>
    [] :: (sortTexts (t.namesIn key)).flatMap fun name => (waysBelow t depth (key ++ [name])).map (name :: ·)

theorem mem_waysBelow (ht : t.WellFormed) (hkey : t.find? key = some entry) :
    way ∈ waysBelow t depth key ↔ way.length ≤ depth ∧ ∃ entry, t.find? (key ++ way) = some entry := by
  induction depth generalizing key entry way with
  | zero =>
    rw [waysBelow, List.mem_singleton, Nat.le_zero, List.length_eq_zero_iff]
    constructor
    · rintro rfl
      exact ⟨rfl, entry, by rwa [List.append_nil]⟩
    · exact And.left
  | succ depth ih =>
    rw [waysBelow, List.mem_cons, List.mem_flatMap]
    constructor
    · rintro (rfl | ⟨name, hname, hmem⟩)
      · exact ⟨Nat.zero_le _, entry, by rwa [List.append_nil]⟩
      · obtain ⟨rest, hrest, rfl⟩ := List.mem_map.mp hmem
        obtain ⟨e, he⟩ := ht.mem_namesIn.mp ((sortTexts_perm _).mem_iff.mp hname)
        obtain ⟨hlength, hfind⟩ := (ih he).mp hrest
        rw [List.append_assoc] at hfind
        exact ⟨Nat.succ_le_succ hlength, hfind⟩
    · rintro ⟨hlength, e, hfind⟩
      cases way with
      | nil => exact .inl rfl
      | cons name rest =>
        have hsplit : key ++ name :: rest = key ++ [name] ++ rest := by simp
        rw [hsplit] at hfind
        have hname : ∃ entry, t.find? (key ++ [name]) = some entry := by
          by_cases hrest : rest = []
          · rw [hrest, List.append_nil] at hfind
            exact ⟨e, hfind⟩
          · exact ⟨.directory, ht.find?_above hfind hrest⟩
        obtain ⟨e', he'⟩ := hname
        refine .inr ⟨name, (sortTexts_perm _).mem_iff.mpr (ht.mem_namesIn.mpr ⟨e', he'⟩), List.mem_map_of_mem ?_⟩
        exact (ih he').mpr ⟨Nat.le_of_succ_le_succ hlength, e, hfind⟩

/-- A directory is met before what is in it, and what begins with an earlier name before what begins with a later one. -/
theorem waysBelow_increasing (ht : t.WellFormed) (depth : Nat) (key : Key) : (waysBelow t depth key).Pairwise (· < ·) := by
  induction depth generalizing key with
  | zero => exact List.pairwise_singleton _ _
  | succ depth ih =>
    rw [waysBelow, List.pairwise_cons, List.pairwise_flatMap]
    refine ⟨fun way hway => ?_, fun name _ => ?_, ?_⟩
    · obtain ⟨name, -, hmem⟩ := List.mem_flatMap.mp hway
      obtain ⟨rest, -, rfl⟩ := List.mem_map.mp hmem
      exact List.nil_lt_cons name rest
    · exact List.pairwise_map.mpr ((ih _).imp List.cons_lt_cons_self.mpr)
    · refine (sortTexts_increasing (ht.namesIn_nodup key)).imp fun {a b} hab x hx y hy => ?_
      obtain ⟨rest, -, rfl⟩ := List.mem_map.mp hx
      obtain ⟨rest', -, rfl⟩ := List.mem_map.mp hy
      exact List.cons_lt_cons_iff.mpr (.inl hab)

theorem waysBelow_fromRoot (t : Tree) (depth : Nat) (key : Key) : waysBelow t.fromRoot depth key = waysBelow t depth key := by
  induction depth generalizing key with
  | zero => rfl
  | succ depth ih =>
    simp only [waysBelow, ih]
    rfl

-- ---------------------------------------------------------------------------
-- Walks
-- ---------------------------------------------------------------------------

section

variable (ht : t.fromRoot.WellFormed) (hroot : t.locate root = .ok base)

include ht hroot

theorem walk_directory (hdir : t.find? (base ++ way) = some .directory) (hshort : Tree.pathFits (pathTo root way)) :
    walk t (depth + 1) (base ++ way) (pathTo root way) = .ok [] :: (sortTexts (t.namesIn (base ++ way))).flatMap
      fun name => (walk t depth (base ++ (way ++ [name])) (pathTo root (way ++ [name]))).map (·.map (name :: ·)) := by
  rw [walk, if_pos (Tree.isDirectoryAt_iff.mpr hdir), Tree.list_pathTo ht hroot hdir, if_pos hshort]
  simp only [pathTo_concat, List.append_assoc]

theorem walk_long (hdir : t.find? (base ++ way) = some .directory) (hlong : ¬ Tree.pathFits (pathTo root way)) :
    walk t (depth + 1) (base ++ way) (pathTo root way) = [.ok [], .error (.walk (pathTo root way) .nameTooLong)] := by
  rw [walk, if_pos (Tree.isDirectoryAt_iff.mpr hdir), Tree.list_pathTo ht hroot hdir, if_neg hlong]

theorem walk_of_fits (hstands : t.find? (base ++ way) = some entry)
    (hshort : ∀ down, down.length < depth → t.find? (base ++ (way ++ down)) = some .directory →
      Tree.pathFits (pathTo root (way ++ down))) :
    walk t depth (base ++ way) (pathTo root way) = (waysBelow t depth (base ++ way)).map .ok := by
  induction depth generalizing way entry with
  | zero => rfl
  | succ depth ih =>
    cases entry with
    | file content =>
      have hnone : t.namesIn (base ++ way) = [] := List.eq_nil_iff_forall_not_mem.mpr fun name hname => by
        obtain ⟨entry, hbelow⟩ := ht.mem_namesIn.mp hname
        cases hstands.symm.trans (ht.find?_parent hbelow)
      rw [walk, if_neg (by simp [Tree.isDirectoryAt_iff, hstands]), waysBelow, hnone]
      rfl
    | directory =>
      have hfits : Tree.pathFits (pathTo root way) := by
        have hself := hshort [] (Nat.succ_pos _)
        rw [List.append_nil] at hself
        exact hself hstands
      rw [walk_directory ht hroot hstands hfits, waysBelow, List.map_cons, List.map_flatMap]
      refine congrArg _ (List.flatMap_congr fun name hname => ?_)
      obtain ⟨entry, hbelow⟩ := ht.mem_namesIn.mp ((sortTexts_perm _).mem_iff.mp hname)
      have hmeets := @ih (way ++ [name]) entry (by rw [← List.append_assoc]; exact hbelow) fun down hdown hdir => by
        rw [List.append_assoc] at hdir ⊢
        exact hshort _ (Nat.succ_lt_succ hdown) hdir
      rw [hmeets, List.map_map, List.map_map, List.append_assoc]
      rfl

theorem long_of_walk (hstands : t.find? (base ++ way) = some entry)
    (hmet : .error failure ∈ walk t depth (base ++ way) (pathTo root way)) :
    ∃ down, t.find? (base ++ (way ++ down)) = some .directory ∧ ¬ Tree.pathFits (pathTo root (way ++ down)) ∧
      failure = .walk (pathTo root (way ++ down)) .nameTooLong := by
  induction depth generalizing way entry with
  | zero => simp [walk] at hmet
  | succ depth ih =>
    cases entry with
    | file content => simp [walk, Tree.isDirectoryAt_iff, hstands] at hmet
    | directory =>
      by_cases hshort : Tree.pathFits (pathTo root way)
      · rw [walk_directory ht hroot hstands hshort, List.mem_cons, List.mem_flatMap] at hmet
        obtain hmet | ⟨name, hname, hmet⟩ := hmet
        · cases hmet
        · obtain ⟨met, hmet, hfailed⟩ := List.mem_map.mp hmet
          cases met with
          | ok way => cases hfailed
          | error failure' =>
            cases hfailed
            obtain ⟨entry, hbelow⟩ := ht.mem_namesIn.mp ((sortTexts_perm _).mem_iff.mp hname)
            obtain ⟨down, hlong⟩ := @ih (way ++ [name]) entry (by rw [← List.append_assoc]; exact hbelow) hmet
            rw [List.append_assoc] at hlong
            exact ⟨name :: down, hlong⟩
      · rw [walk_long ht hroot hstands hshort] at hmet
        obtain ⟨⟩ | ⟨-, ⟨⟩ | ⟨-, ⟨⟩⟩⟩ := hmet
        exact ⟨[], by rwa [List.append_nil], by rwa [List.append_nil], by rw [List.append_nil]⟩

theorem exists_walk_error (hdepth : down.length < depth) (hdir : t.find? (base ++ (way ++ down)) = some .directory)
    (hlong : ¬ Tree.pathFits (pathTo root (way ++ down))) :
    ∃ failure, .error failure ∈ walk t depth (base ++ way) (pathTo root way) := by
  induction depth generalizing way down with
  | zero => cases hdepth
  | succ depth ih =>
    have habove : t.find? (base ++ way) = some .directory := by
      rw [← List.append_assoc] at hdir
      exact ht.find?_of_prefix hdir (List.prefix_append _ _)
    by_cases hshort : Tree.pathFits (pathTo root way)
    · cases down with
      | nil =>
        rw [List.append_nil] at hlong
        exact absurd hshort hlong
      | cons name down =>
        have hsplit : way ++ name :: down = way ++ [name] ++ down := by simp
        rw [hsplit] at hdir hlong
        obtain ⟨failure, hmet⟩ := ih (Nat.lt_of_succ_lt_succ hdepth) hdir hlong
        have hname : name ∈ t.namesIn (base ++ way) := by
          refine ht.mem_namesIn.mpr ⟨.directory, ?_⟩
          rw [List.append_assoc]
          rw [← List.append_assoc] at hdir
          exact ht.find?_of_prefix hdir (List.prefix_append _ _)
        refine ⟨failure, ?_⟩
        rw [walk_directory ht hroot habove hshort, List.mem_cons, List.mem_flatMap]
        exact .inr ⟨name, (sortTexts_perm _).mem_iff.mpr hname, List.mem_map.mpr ⟨_, hmet, rfl⟩⟩
    · refine ⟨.walk (pathTo root way) .nameTooLong, ?_⟩
      rw [walk_long ht hroot habove hshort]
      exact List.mem_cons_of_mem _ List.mem_cons_self

end

end Task

end ContestTests
