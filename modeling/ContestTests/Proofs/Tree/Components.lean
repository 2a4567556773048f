import ContestTests.Proofs.Task.Scanning

/-!
# Components and normal paths

The components of a path have one form: the root or a dot can stand first, and then only steps up and names follow.
Every list of this form is read back from its texts with slashes between them, although the root is a slash itself.
So a path keeps its components when it is normalised, and what scanning finds is named by normal paths.
-/

namespace ContestTests

open ContestTests.Text

namespace Path

variable {path : String} {way : Key} {cs : List Component}

def Inner (c : Component) : Prop := Proper c ∧ c ≠ .here

/-- The lists that are the components of a path. -/
inductive Canonical : List Component → Prop
  | fromRoot {cs : List Component} (h : ∀ c ∈ cs, Inner c) : Canonical (.root :: cs)
  | fromHere {cs : List Component} (h : ∀ c ∈ cs, Inner c) : Canonical (.here :: cs)
  | inner {cs : List Component} (h : ∀ c ∈ cs, Inner c) : Canonical cs

theorem filter_here_of_inner (h : ∀ c ∈ cs, Inner c) : cs.filter (· != .here) = cs :=
  List.filter_eq_self.mpr fun c hc => bne_iff_ne.mpr (h c hc).2

theorem inner_filter_here (h : ∀ c ∈ cs, Proper c) : ∀ c ∈ cs.filter (· != .here), Inner c := by
  intro c hc
  obtain ⟨hc, hne⟩ := List.mem_filter.mp hc
  exact ⟨h c hc, bne_iff_ne.mp hne⟩

theorem canonical_components (path : String) : Canonical (components path) := by
  have hproper : ∀ c ∈ (pieces path).map Component.ofPiece, Proper c := proper_of_sublist (List.Sublist.refl _)
  unfold components
  dsimp only
  split
  · exact .fromRoot (inner_filter_here hproper)
  · split
    · rename_i hparts
      rw [hparts] at hproper
      exact .fromHere (inner_filter_here (List.forall_mem_cons.mp hproper).2)
    · exact .inner (inner_filter_here hproper)

-- ---------------------------------------------------------------------------
-- Reading back
-- ---------------------------------------------------------------------------

/-- The text of the root and the slash behind it are two slashes, unless nothing follows. -/
theorem joinTexts_root (texts : List String) :
    joinTexts "/" ("/" :: texts) = "/" ++ (if texts = [] then "" else "/" ++ joinTexts "/" texts) := by
  cases texts with
  | nil => rfl
  | cons text more =>
    rw [if_neg (by simp), ← String.toList_inj]
    simp [joinTexts, joinWith, String.toList_append]

theorem components_fromRoot (h : ∀ c ∈ cs, Inner c) :
    components (joinTexts "/" ("/" :: cs.map Component.text)) = .root :: cs := by
  have hpieces : (pieces (joinTexts "/" ("/" :: cs.map Component.text))).map Component.ofPiece = cs := by
    rw [joinTexts_root, pieces_slash]
    split
    · rename_i hnil
      rw [List.map_eq_nil_iff.mp hnil]
      rfl
    · rw [pieces_slash]
      exact Tree.map_ofPiece_joinTexts fun c hc => (h c hc).1
  have habs : isAbsolute (joinTexts "/" ("/" :: cs.map Component.text)) = true := by
    rw [joinTexts_root]
    exact isAbsolute_slash _
  rw [components, habs, if_pos rfl, hpieces]
  exact congrArg _ (filter_here_of_inner h)

/-- Without the root a dot in front is kept, and no other dot. -/
def dropDots : List Component → List Component
  | .here :: more => .here :: more.filter (· != .here)
  | cs => cs.filter (· != .here)

theorem components_relative (h : ∀ c ∈ cs, Proper c) :
    components (joinTexts "/" (cs.map Component.text)) = dropDots cs := by
  rw [components, isAbsolute_joinTexts (Tree.texts_of_proper h), if_neg (by simp), Tree.map_ofPiece_joinTexts h]
  rfl

theorem components_joinTexts (h : Canonical cs) : components (joinTexts "/" (cs.map Component.text)) = cs := by
  cases h with
  | fromRoot h => exact components_fromRoot h
  | @fromHere cs h =>
    have hproper : ∀ c ∈ Component.here :: cs, Proper c :=
      List.forall_mem_cons.mpr ⟨⟨by simp, by simp⟩, fun c hc => (h c hc).1⟩
    rw [components_relative hproper]
    exact congrArg _ (filter_here_of_inner h)
  | inner h =>
    rw [components_relative fun c hc => (h c hc).1, dropDots.eq_def]
    split
    · exact absurd rfl (h .here List.mem_cons_self).2
    · exact filter_here_of_inner h

theorem components_normalize (path : String) : components (normalize path) = components path :=
  components_joinTexts (canonical_components path)

/-- A normalised path means what the path means, and paths that mean the same are normalised to one. -/
theorem normalize_keeps_components (path : String) :
    components (normalize path) = components path ∧ normalize (normalize path) = normalize path ∧
      ∀ other, normalize path = normalize other ↔ components path = components other := by
  have hsame {path other : String} (h : components path = components other) : normalize path = normalize other := by
    rw [normalize, normalize, h]
  refine ⟨components_normalize path, hsame (components_normalize path), fun other => ⟨fun h => ?_, hsame⟩⟩
  rw [← components_normalize path, h, components_normalize other]

/-- The root doubles the first slash. -/
example : normalize "/a//./../b/" = "//a/../b" := by decide

-- ---------------------------------------------------------------------------
-- Ways
-- ---------------------------------------------------------------------------

theorem components_wayText (h : IsWay way) : components (Task.wayText way) = way.map Component.entry := by
  have htexts : (way.map Component.entry).map Component.text = way := by simp [Component.text, Function.comp_def]
  have hinner : ∀ c ∈ way.map Component.entry, Inner c := by
    intro c hc
    obtain ⟨name, hname, rfl⟩ := List.mem_map.mp hc
    refine ⟨⟨by simp, fun name' he => ?_⟩, by simp⟩
    cases he
    exact h name hname
  have hread := components_joinTexts (.inner hinner)
  rwa [htexts] at hread

theorem normalize_wayText (h : IsWay way) : normalize (Task.wayText way) = Task.wayText way := by
  rw [normalize, components_wayText h]
  simp [Component.text, Function.comp_def, Task.wayText]

end Path

namespace Task

open ContestTests.Path

variable {t : Tree} {root : String} {level : Nat} {tasks : List Task} {task : Task}

/-- What scanning finds is named by normal paths. -/
theorem scan_normal (ht : t.WellFormed) (h : scan t root level = .ok tasks) (hmem : task ∈ tasks) :
    normalize task.name = task.name ∧ ∀ file ∈ task.files, normalize file = file := by
  obtain ⟨base, hroot, -, rfl⟩ := scan_eq_ok ht.fromRoot h
  obtain ⟨way, hway, rfl⟩ := List.mem_map.mp hmem
  obtain ⟨-, hbase⟩ := Tree.look_eq_ok.mp hroot
  obtain ⟨-, hdir⟩ := (mem_waysAt ht hbase).mp hway
  refine ⟨normalize_wayText (isWay_of_find? ht hdir), fun file hfile => ?_⟩
  obtain ⟨down, -, ⟨content, hfind⟩, rfl⟩ := (mem_filesAt ht hdir).mp hfile
  exact normalize_wayText (isWay_of_find? ht hfind)

end Task

end ContestTests
