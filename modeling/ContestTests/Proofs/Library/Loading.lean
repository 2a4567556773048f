import ContestTests.Proofs.Library.Discovery
import ContestTests.Proofs.Tree.Below

/-!
# Loading a library

Every file that is found is read on its own: it is a definition if it holds text that is one, and else a
failure. So the text that names start with, the directory and its files settle what is loaded.
-/

namespace ContestTests.Library

open ContestTests.Path

variable {t : Tree} {directory initial name : String} {key : Key} {content : ByteArray}
  {files : List (String × ByteArray)}

-- ---------------------------------------------------------------------------
-- Files
-- ---------------------------------------------------------------------------

/-- The files are shared out to definitions and failures, both in the order of the files. -/
inductive Shares (directory : String) : List (String × ByteArray) → List Definition → List (String × Failure) → Prop
  | nil : Shares directory [] [] []
  | definition {name text : String} {content : ByteArray} {d : Definition} {files : List (String × ByteArray)}
      {definitions : List Definition} {failures : List (String × Failure)}
      (htext : String.fromUTF8? content = some text) (h : Definition.ofText name text = .ok d)
      (hrest : Shares directory files definitions failures) :
      Shares directory ((name, content) :: files) (d :: definitions) failures
  | refused {name text : String} {content : ByteArray} {e : Definition.Error} {files : List (String × ByteArray)}
      {definitions : List Definition} {failures : List (String × Failure)}
      (htext : String.fromUTF8? content = some text) (h : Definition.ofText name text = .error e)
      (hrest : Shares directory files definitions failures) :
      Shares directory ((name, content) :: files) definitions ((join directory name, .definition e) :: failures)
  | noText {name : String} {content : ByteArray} {files : List (String × ByteArray)} {definitions : List Definition}
      {failures : List (String × Failure)} (htext : String.fromUTF8? content = none)
      (hrest : Shares directory files definitions failures) :
      Shares directory ((name, content) :: files) definitions ((join directory name, .io .notUtf8) :: failures)

theorem loadFile_of_look (hname : IsName name) (h : t.look (join directory name) = .ok (key, .file content)) :
    loadFile t (join directory name) = match String.fromUTF8? content with
      | none => .error (.io .notUtf8)
      | some text => (Definition.ofText name text).mapError .definition := by
  rw [loadFile, fileName_join directory hname, Tree.readText_of_look h]
  cases String.fromUTF8? content with
  | none => rfl
  | some text =>
    dsimp only
    cases Definition.ofText name text <;> rfl

theorem shares_ofResults
    (h : ∀ f ∈ files, IsName f.1 ∧ t.look (join directory f.1) = .ok (key ++ [f.1], .file f.2)) :
    let contents := Contents.ofResults (files.map fun f => (join directory f.1, loadFile t (join directory f.1)))
    Shares directory files contents.definitions contents.failures := by
  induction files with
  | nil => exact .nil
  | cons f files ih =>
    obtain ⟨name, content⟩ := f
    obtain ⟨⟨hname, hlook⟩, hfiles⟩ := List.forall_mem_cons.mp h
    have hrest := ih hfiles
    have hload := loadFile_of_look hname hlook
    rw [List.map_cons]
    dsimp only at hload ⊢
    cases htext : String.fromUTF8? content with
    | none =>
      rw [htext] at hload
      rw [hload]
      exact .noText htext hrest
    | some text =>
      rw [htext] at hload
      dsimp only at hload
      cases hdefinition : Definition.ofText name text with
      | ok d =>
        rw [hdefinition] at hload
        rw [hload]
        exact .definition htext hdefinition hrest
      | error e =>
        rw [hdefinition] at hload
        rw [hload]
        exact .refused htext hdefinition hrest

theorem Listed.reached (h : Listed t directory key initial files) (ht : t.WellFormed)
    (hdirectory : t.look directory = .ok (key, .directory)) :
    ∀ f ∈ files, IsName f.1 ∧ t.look (join directory f.1) = .ok (key ++ [f.1], .file f.2) := by
  rintro ⟨name, content⟩ hf
  obtain ⟨hfind, -, hshort⟩ := (h.mem_iff name content).mp hf
  have hname := ht.fits_of_find? hfind name (by simp)
  exact ⟨hname.isName, (Tree.look_join_name ht hdirectory hname).mpr ⟨hfind, hshort⟩⟩

-- ---------------------------------------------------------------------------
-- Libraries
-- ---------------------------------------------------------------------------

theorem load_of_error {failure : Failure} (h : discover t directory initial = .error failure) :
    load t directory initial = .error failure := by
  rw [load, h]
  rfl

theorem load_of_ok {paths : List String} (h : discover t directory initial = .ok paths) :
    load t directory initial = .ok (.ofResults (paths.map fun path => (path, loadFile t path))) := by
  rw [load, h]
  rfl

theorem list_of_look_error {fault : Fault} (h : t.look directory = .error fault) : t.list directory = .error fault := by
  rw [Tree.list, Tree.directoryKey, h]
  rfl

theorem list_of_look_file (h : t.look directory = .ok (key, .file content)) :
    t.list directory = .error .notADirectory := by
  rw [Tree.list, Tree.directoryKey, h]
  rfl

def refusal (initial directory : String) (fault : Fault) : Failure :=
  if fault = .notFound then .typeNotRecognized initial directory else .io fault

/-- A text is taken literally, however it looks as a pattern: the files that start with it are loaded, each for
itself. A library is not recognized if there are none, or if nothing stands where its directory should be; other
faults of the directory are told. -/
theorem initial_taken_literally (ht : t.WellFormed) (directory initial : String) :
    (∀ fault, t.look directory = .error fault →
      discover t directory initial = .error (refusal initial directory fault) ∧
        load t directory initial = .error (refusal initial directory fault)) ∧
    (∀ key content, t.look directory = .ok (key, .file content) →
      discover t directory initial = .error (.io .notADirectory) ∧
        load t directory initial = .error (.io .notADirectory)) ∧
    ∀ key, t.look directory = .ok (key, .directory) → ∃ files, Listed t directory key initial files ∧
      (files = [] → discover t directory initial = .error (.typeNotRecognized initial directory) ∧
        load t directory initial = .error (.typeNotRecognized initial directory)) ∧
      (files ≠ [] → discover t directory initial = .ok (files.map fun f => join directory f.1) ∧
        ∃ contents, load t directory initial = .ok contents ∧
          Shares directory files contents.definitions contents.failures) := by
  refine ⟨fun fault hfault => ?_, fun key content hfile => ?_, fun key hdirectory => ?_⟩
  · have hdiscover := discover_of_fault (list_of_look_error hfault) initial
    exact ⟨hdiscover, load_of_error hdiscover⟩
  · have hdiscover := discover_of_fault (list_of_look_file hfile) initial
    exact ⟨hdiscover, load_of_error hdiscover⟩
  · obtain ⟨files, hlisted, hdiscover⟩ := discover_listed ht hdirectory initial
    refine ⟨files, hlisted, fun hnil => ?_, fun hne => ?_⟩
    · rw [if_pos hnil] at hdiscover
      exact ⟨hdiscover, load_of_error hdiscover⟩
    · rw [if_neg hne] at hdiscover
      refine ⟨hdiscover, _, load_of_ok hdiscover, ?_⟩
      rw [List.map_map]
      exact shares_ofResults (hlisted.reached ht hdirectory)

def bracketed : Tree :=
  [(["types"], .directory), (["types", "[a]!"], .file ⟨#[255]⟩), (["types", "a1"], .file .empty),
    (["types", "[A]é"], .file "in\nout".toUTF8)].foldl (fun t (key, entry) => t.put key entry) .empty

theorem bracketed_wellFormed : bracketed.WellFormed := by decide

theorem initial_taken_literally_brackets :
    (bracketed.WellFormed ∧ bracketed.look "types" = .ok (["types"], .directory)) ∧
      ∃ files contents, Listed bracketed "types" ["types"] "[a]" files ∧
        (files.map fun f => join "types" f.1) = ["types/[A]é", "types/[a]!"] ∧
          load bracketed "types" "[a]" = .ok contents ∧
            Shares "types" files contents.definitions contents.failures := by
  have hdirectory : bracketed.look "types" = .ok (["types"], .directory) := rfl
  have hdiscover : discover bracketed "types" "[a]" = .ok ["types/[A]é", "types/[a]!"] := by decide +kernel
  obtain ⟨-, -, hfound⟩ := initial_taken_literally bracketed_wellFormed "types" "[a]"
  obtain ⟨files, hlisted, hnone, hsome⟩ := hfound _ hdirectory
  have hne : files ≠ [] := fun hnil => by
    rw [(hnone hnil).1] at hdiscover
    cases hdiscover
  obtain ⟨hpaths, contents, hload, hshares⟩ := hsome hne
  rw [hdiscover] at hpaths
  exact ⟨⟨bracketed_wellFormed, hdirectory⟩, files, contents, hlisted, (Except.ok.inj hpaths).symm, hload, hshares⟩

-- ---------------------------------------------------------------------------
-- Where the path of a file is too long
-- ---------------------------------------------------------------------------

/-- A library below a file is missing, and the fault is told; and where the path of its directory is about as long as
paths can be, a file is not found. -/
theorem initial_not_found :
    (∀ key entry, bracketed.look "types/a1/x" ≠ .ok (key, entry)) ∧
      discover bracketed "types/a1/x" "" = .error (.io .notADirectory) ∧
      bracketed.look (slashed "types" 4089) = .ok (["types"], .directory) ∧
      bracketed.find? ["types", "a1"] = some (.file .empty) ∧ Glob.Begins "a".toList "a1".toList ∧
      discover bracketed (slashed "types" 4089) "a" = .error (.typeNotRecognized "a" (slashed "types" 4089)) := by
  have hdirectory : bracketed.look (slashed "types" 4089) = .ok (["types"], .directory) := by
    refine Tree.look_slashed rfl ?_
    rw [Tree.pathFits, utf8ByteSize_slashed]
    decide
  refine ⟨fun key entry h => ?_, by decide +kernel, hdirectory, rfl, ⟨['a'], ['1'], rfl, rfl⟩, ?_⟩
  · have hfault : bracketed.look "types/a1/x" = .error .notADirectory := rfl
    rw [hfault] at h
    cases h
  · obtain ⟨files, hlisted, hdiscover⟩ := discover_listed bracketed_wellFormed hdirectory "a"
    have hlong : ∀ name ∈ bracketed.namesIn ["types"], 2 ≤ name.utf8ByteSize := by decide +kernel
    rw [hdiscover, if_pos]
    refine List.eq_nil_iff_forall_not_mem.mpr ?_
    rintro ⟨name, content⟩ hmem
    obtain ⟨hfind, -, hshort⟩ := (hlisted.mem_iff name content).mp hmem
    have hname := (bracketed_wellFormed.fits_of_find? hfind name (by simp)).isName
    have hsize := hlong name (bracketed_wellFormed.mem_namesIn.mpr ⟨_, hfind⟩)
    rw [Tree.pathFits, join_slashed _ _ hname, String.utf8ByteSize_append, utf8ByteSize_slashed] at hshort
    have hlt := of_decide_eq_true hshort
    have htypes : "types".utf8ByteSize = 5 := rfl
    omega

end ContestTests.Library
