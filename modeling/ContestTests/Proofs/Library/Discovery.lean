import ContestTests.Library
import ContestTests.Proofs.Library.Literal
import ContestTests.Proofs.Task.Walking
import ContestTests.Proofs.Tree.Descent

/-!
# What a library holds

The files of a library are those of its directory whose names start with the text that was given, and
each of them is a definition or a failure for what it holds alone. Only what the operating system can not
reach is left out: a file whose path is too long, and a directory that can not be looked at.
-/

namespace ContestTests

open ContestTests.Path

variable {t : Tree} {directory initial name : String} {key : Key} {content : ByteArray} {names : List String}
  {files : List (String × ByteArray)}

-- ---------------------------------------------------------------------------
-- Files of a directory
-- ---------------------------------------------------------------------------

theorem Path.fileName_join (base : String) (h : IsName name) : fileName (join base name) = name := by
  have hpieces : pieces name = [name.toList] := by
    rw [← wayText_singleton name, pieces_wayText h.isWay, List.map_singleton, wayText_singleton]
  have hparts : (pieces (join base name)).map Component.ofPiece =
      (pieces base).map Component.ofPiece ++ [.entry name] := by
    rw [pieces_join h.isAbsolute, List.map_append, hpieces, List.map_singleton, h.ofPiece]
  obtain ⟨inner, hcomponents, -⟩ := Tree.components_of_name hparts
  rw [fileName, hcomponents, List.getLast?_concat]

namespace Tree

theorem look_join_name (ht : t.WellFormed) (hdirectory : t.look directory = .ok (key, .directory)) (hname : Fits name) :
    t.look (join directory name) = .ok (key ++ [name], .file content) ↔
      t.find? (key ++ [name]) = some (.file content) ∧ pathFits (join directory name) := by
  obtain ⟨hlocate, -⟩ := look_eq_ok.mp hdirectory
  constructor
  · intro h
    obtain ⟨hfile, hfind⟩ := look_eq_ok.mp h
    exact ⟨hfind, (withinLimits_of_locate hfile).short⟩
  · rintro ⟨hfind, hshort⟩
    have hlimits := (withinLimits_of_locate hlocate).join_name hname hshort
    rw [← wayText_singleton name] at hlimits
    have hjoin := locate_join_way ht.fromRoot hlimits hlocate hname.isName.isWay (by simp) hfind
    rw [wayText_singleton] at hjoin
    exact look_eq_ok.mpr ⟨hjoin, hfind⟩

theorem isFile_join_name (ht : t.WellFormed) (hdirectory : t.look directory = .ok (key, .directory)) (hname : Fits name) :
    t.isFile (join directory name) ↔
      (∃ content, t.find? (key ++ [name]) = some (.file content)) ∧ pathFits (join directory name) := by
  rw [isFile_iff]
  constructor
  · rintro ⟨other, content, hlook⟩
    have hkey : other = key ++ [name] := by
      rw [locate_eq_ok (look_eq_ok.mp hlook).1, keyOf_join_name t directory hname.isName,
        locate_eq_ok (look_eq_ok.mp hdirectory).1]
    rw [hkey] at hlook
    obtain ⟨hfind, hshort⟩ := (look_join_name ht hdirectory hname).mp hlook
    exact ⟨⟨content, hfind⟩, hshort⟩
  · rintro ⟨⟨content, hfind⟩, hshort⟩
    exact ⟨_, content, (look_join_name ht hdirectory hname).mpr ⟨hfind, hshort⟩⟩

end Tree

namespace Library

/-- The files in a directory that start with a text, in the order of their names, as far as their paths are not
too long. -/
structure Listed (t : Tree) (directory : String) (key : Key) (initial : String) (files : List (String × ByteArray)) :
    Prop where
  increasing : (files.map Prod.fst).Pairwise (· < ·)
  mem_iff : ∀ name content, (name, content) ∈ files ↔ t.find? (key ++ [name]) = some (.file content) ∧
    Glob.Begins initial.toList name.toList ∧ Tree.pathFits (join directory name)

theorem exists_files {holds : String → ByteArray → Prop} (h : ∀ name ∈ names, ∃ content, holds name content) :
    ∃ files : List (String × ByteArray), files.map Prod.fst = names ∧ ∀ f ∈ files, holds f.1 f.2 := by
  induction names with
  | nil => exact ⟨[], rfl, by simp⟩
  | cons name names ih =>
    obtain ⟨⟨content, hcontent⟩, hrest⟩ := List.forall_mem_cons.mp h
    obtain ⟨files, hfiles, hall⟩ := ih hrest
    exact ⟨(name, content) :: files, by rw [List.map_cons, hfiles], List.forall_mem_cons.mpr ⟨hcontent, hall⟩⟩

def found (t : Tree) (directory : String) (key : Key) (pattern : Glob) : List String :=
  (t.namesIn key).filter fun name => t.isFile (join directory name) && pattern.accepts name

theorem mem_found (ht : t.WellFormed) (hdirectory : t.look directory = .ok (key, .directory)) {pattern : Glob}
    (hpattern : pattern? initial = some pattern) : name ∈ found t directory key pattern ↔
      (∃ content, t.find? (key ++ [name]) = some (.file content)) ∧ Glob.Begins initial.toList name.toList ∧
        Tree.pathFits (join directory name) := by
  have haccepts : pattern.accepts name ↔ Glob.Begins initial.toList name.toList := by
    rw [pattern?, Glob.ofText?_escape] at hpattern
    cases hpattern
    exact Glob.tokensAccept_literals
  rw [found, List.mem_filter, Bool.and_eq_true, haccepts, ht.mem_namesIn]
  constructor
  · rintro ⟨⟨entry, hfind⟩, hfile, hbegins⟩
    have hname := ht.fits_of_find? hfind name (by simp)
    obtain ⟨hcontent, hshort⟩ := (Tree.isFile_join_name ht hdirectory hname).mp hfile
    exact ⟨hcontent, hbegins, hshort⟩
  · rintro ⟨⟨content, hfind⟩, hbegins, hshort⟩
    have hname := ht.fits_of_find? hfind name (by simp)
    exact ⟨⟨_, hfind⟩, (Tree.isFile_join_name ht hdirectory hname).mpr ⟨⟨content, hfind⟩, hshort⟩, hbegins⟩

theorem exists_listed (ht : t.WellFormed) (hdirectory : t.look directory = .ok (key, .directory)) {pattern : Glob}
    (hpattern : pattern? initial = some pattern) :
    ∃ files, Listed t directory key initial files ∧
      files.map Prod.fst = Task.sortTexts (found t directory key pattern) := by
  have hmem (name : String) : name ∈ Task.sortTexts (found t directory key pattern) ↔ _ :=
    (Task.sortTexts_perm _).mem_iff.trans (mem_found ht hdirectory hpattern)
  obtain ⟨files, hnames, hfiles⟩ := exists_files fun name hname => ((hmem name).mp hname).1
  refine ⟨files, ⟨?_, fun name content => ⟨fun h => ?_, ?_⟩⟩, hnames⟩
  · rw [hnames]
    exact Task.sortTexts_increasing ((ht.namesIn_nodup key).filter _)
  · have hname : name ∈ files.map Prod.fst := List.mem_map_of_mem h
    exact ⟨hfiles _ h, ((hmem name).mp (hnames ▸ hname)).2⟩
  · rintro ⟨hfind, hbegins, hshort⟩
    have hname : name ∈ files.map Prod.fst := hnames ▸ (hmem name).mpr ⟨⟨content, hfind⟩, hbegins, hshort⟩
    obtain ⟨⟨_, other⟩, hother, rfl⟩ := List.mem_map.mp hname
    have hsame := (hfiles _ hother).symm.trans hfind
    cases hsame
    exact hother

/-- The files of a library, and what the program is told of a library without any. -/
theorem discover_listed (ht : t.WellFormed) (hdirectory : t.look directory = .ok (key, .directory)) (initial : String) :
    ∃ files, Listed t directory key initial files ∧ discover t directory initial =
      if files = [] then .error (.typeNotRecognized initial directory)
      else .ok (files.map fun f => join directory f.1) := by
  have hpattern := Glob.ofText?_escape initial.toList
  obtain ⟨files, hlisted, hnames⟩ := exists_listed ht hdirectory hpattern
  refine ⟨files, hlisted, ?_⟩
  have hlist : t.list directory = .ok (t.namesIn key) := by
    rw [Tree.list, Tree.directoryKey_eq_ok.mpr hdirectory]
    rfl
  have hempty : (found t directory key ⟨initial.toList.map Glob.literal ++ [.anyText]⟩).isEmpty ↔ files = [] := by
    rw [List.isEmpty_iff, ← @List.map_eq_nil_iff _ _ Prod.fst files, hnames]
    exact ⟨fun h => by rw [h]; rfl, fun h => List.Perm.eq_nil (h ▸ (Task.sortTexts_perm _).symm)⟩
  rw [discover, pattern?, hpattern, hlist]
  dsimp only
  rw [← found, ← hnames, List.map_map]
  simp only [hempty]
  rfl

theorem discover_of_fault {fault : Fault} (h : t.list directory = .error fault) (initial : String) :
    discover t directory initial =
      .error (if fault = .notFound then .typeNotRecognized initial directory else .io fault) := by
  rw [discover, pattern?, Glob.ofText?_escape, h]
  cases fault <;> rfl

end Library

end ContestTests
