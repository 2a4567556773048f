import ContestTests.Proofs.Conversion.Interruption
import ContestTests.Proofs.Settings.Text
import ContestTests.Proofs.Text.Encoding

/-!
# Settings are loaded as they were saved

Saving makes the base directory if it is missing, and writes one file there. What is loaded then are the
saved values, with the characters from the older file as before. If saving fails, what is loaded stays
as it was.
-/

namespace ContestTests

open ContestTests.Path
open Conversion (Paves paving_createDirs)

variable {t t' t₁ start : Tree} {base : String} {content : ByteArray} {s s' : Settings} {fault : Fault}

-- ---------------------------------------------------------------------------
-- Looking again
-- ---------------------------------------------------------------------------

namespace Conversion.Paves

theorem onlyDirs (h : Paves start base t t') : t.OnlyDirs t' := fun key =>
  (h.find? key).imp_right fun hnew => ⟨hnew.1, hnew.2.1⟩

theorem keeps (h : Paves start base t t') : t.Keeps t' := h.onlyDirs.keeps

theorem fileAt (h : Paves start base t t') : t'.fileAt = t.fileAt := h.onlyDirs.fileAt

end Conversion.Paves

namespace Tree

variable {path name other : String}

/-- Under the path stands the same in both trees, or nothing in either. -/
def SameLook (t t' : Tree) (path : String) : Prop := ∀ found, t'.look path = .ok found ↔ t.look path = .ok found

theorem SameLook.cases (h : t.SameLook t' path) : (∃ found, t.look path = .ok found ∧ t'.look path = .ok found) ∨
    ∃ fault fault', t.look path = .error fault ∧ t'.look path = .error fault' := by
  cases hlook : t.look path with
  | ok found => exact .inl ⟨found, rfl, (h found).mpr hlook⟩
  | error fault =>
    cases hlook' : t'.look path with
    | ok found =>
      rw [(h found).mp hlook'] at hlook
      cases hlook
    | error fault' => exact .inr ⟨fault, fault', rfl, rfl⟩

/-- The directories that a grounded path may need are above the names behind it. -/
theorem sameLook_of_paves (ht : t.WellFormed) (hgrounded : t.Grounded base) (h : Paves t base t t') (hname : IsName name) :
    t.SameLook t' (join base name) := by
  have hkeyOf : t'.keyOf (join base name) = t.keyOf base ++ [name] := by
    rw [keyOf_congr h.current, keyOf_join_name t base hname]
  have hstays : t'.find? (t.keyOf base ++ [name]) = t.find? (t.keyOf base ++ [name]) := by
    rcases h.find? (t.keyOf base ++ [name]) with he | ⟨hnone, -, first, hfirst, hkey⟩
    · exact he
    · have hprefix := ht.prefix_keyOf_of_missing hgrounded hfirst (hkey ▸ hnone)
      have hlength := hprefix.length_le
      rw [← hkey, List.length_append, List.length_singleton] at hlength
      omega
  rintro ⟨key, entry⟩
  rw [look_eq_ok, look_eq_ok]
  constructor
  · rintro ⟨hlocate, hfind⟩
    obtain rfl := (locate_eq_ok hlocate).trans hkeyOf
    rw [hstays] at hfind
    refine ⟨ht.locate_of_grounded h.current ((grounded_join_name hname).mpr hgrounded) hlocate (fun hdir => ?_) hfind, hfind⟩
    rwa [hstays] at hdir
  · rintro ⟨hlocate, hfind⟩
    obtain rfl := (locate_eq_ok hlocate).trans (keyOf_join_name t base hname)
    exact ⟨locate_of_keeps h.current h.keeps hlocate, hstays.trans hfind⟩

theorem sameLook_of_write (ht : t.WellFormed) (h : t.write path content = .ok t')
    (hne : t.keyOf other ≠ t.keyOf path) : t.SameLook t' other := by
  obtain ⟨-, -, hbecomes⟩ := write_becomes ht h
  have hkeeps := write_directories ht h
  have hlocate (key : Key) : t'.locate other = .ok key ↔ t.locate other = .ok key :=
    ⟨locate_of_keeps hbecomes.current.symm fun k hk => (hkeeps k).mp hk,
      locate_of_keeps hbecomes.current fun k hk => (hkeeps k).mpr hk⟩
  rintro ⟨key, entry⟩
  rw [look_eq_ok, look_eq_ok, hlocate]
  refine and_congr_right fun hkey => ?_
  rw [locate_eq_ok hkey, hbecomes.find?, if_neg hne]

theorem look_of_write (ht : t.WellFormed) (h : t.write path content = .ok t') :
    t'.look path = .ok (t.keyOf path, .file content) := by
  obtain ⟨hlocate, -, hbecomes⟩ := write_becomes ht h
  refine look_eq_ok.mpr ⟨locate_of_keeps hbecomes.current (fun k hk => ?_) hlocate, ?_⟩
  · exact (write_directories ht h k).mpr hk
  · rw [hbecomes.find?, if_pos rfl]

theorem createDirs_of_isDirectory (h : t.isDirectory path) : Action.createDirs path t = .ok () t := by
  obtain ⟨hlocate, hdir⟩ := isDirectory_iff.mp h
  have hlimits := (withinLimits_of_locate hlocate).dropSlash
  have hdrop : t.locate (dropSlash path) = .ok (t.keyOf path) := by
    have hfollow := follow_pieces hlocate
    rw [← pieces_dropSlash, ← isAbsolute_dropSlash] at hfollow
    refine locate_eq_ok_iff.mpr ⟨hlimits.nonempty, hlimits.noNul, hlimits.short, ?_⟩
    rw [stepsOf, follow_append, hfollow]
    show t.follow (t.keyOf path) _ = _
    split
    · exact follow_cons_eq_ok.mpr ⟨hdir, rfl, rfl⟩
    · rfl
  have hmake : t.makeDir path = .error .alreadyExists := by
    rw [makeDir, hdrop]
    simp only [bind, Except.bind, hdir]
  unfold Action.createDirs
  split
  · rfl
  · rw [Action.makeDirAfter, hmake]
    simp only [h, if_true]

end Tree

-- ---------------------------------------------------------------------------
-- Loading
-- ---------------------------------------------------------------------------

namespace Settings

theorem isName_file : IsName "config.toml" := by decide

theorem isName_legacyFile : IsName ".cfg" := by decide

theorem readFile_congr (h : t.SameLook t' (path base)) : readFile t' base = readFile t base := by
  rcases h.cases with ⟨found, hlook, hlook'⟩ | ⟨fault, fault', hlook, hlook'⟩
  · simp only [readFile, Tree.exists?, Tree.readText, Tree.read, hlook, hlook']
  · simp only [readFile, Tree.exists?, hlook, hlook', Bool.false_eq_true, if_false]

theorem readLegacy_congr (h : t.SameLook t' (legacyPath base)) : readLegacy t' base = readLegacy t base := by
  rcases h.cases with ⟨found, hlook, hlook'⟩ | ⟨fault, fault', hlook, hlook'⟩
  · simp only [readLegacy, Tree.isFile, Tree.readText, Tree.read, hlook, hlook']
  · simp only [readLegacy, Tree.isFile, hlook, hlook', Bool.false_eq_true, if_false]

theorem load_eq_ok : load t base = .ok s ↔ ∃ file chars, readFile t base = .ok file ∧
    readLegacy t base = .ok chars ∧ s = { file with legacyChars := chars } := by
  rw [load, bind_eq_ok]
  constructor
  · rintro ⟨file, hfile, h⟩
    obtain ⟨chars, hchars, h⟩ := bind_eq_ok.mp h
    cases h
    exact ⟨file, chars, hfile, hchars, rfl⟩
  · rintro ⟨file, chars, hfile, hchars, rfl⟩
    exact ⟨file, hfile, bind_eq_ok.mpr ⟨chars, hchars, rfl⟩⟩

theorem load_of_paves (ht : t.WellFormed) (hgrounded : t.Grounded base) (h : Paves t base t t') :
    load t' base = load t base := by
  rw [load, load, readFile_congr (Tree.sameLook_of_paves ht hgrounded h isName_file),
    readLegacy_congr (Tree.sameLook_of_paves ht hgrounded h isName_legacyFile)]

-- ---------------------------------------------------------------------------
-- Values
-- ---------------------------------------------------------------------------

theorem Key.ofText?_text (k : Key) : Key.ofText? k.text = some k := by
  cases k <;> rfl

theorem Key.ofText?_eq_some {text : String} {k : Key} : Key.ofText? text = some k ↔ text = k.text := by
  constructor
  · intro h
    have hfound := List.find?_some h
    exact (beq_iff_eq.mp hfound).symm
  · rintro rfl
    exact Key.ofText?_text k

theorem Key.text_injective {k k' : Key} (h : k.text = k'.text) : k = k' := by
  simpa [Key.ofText?_text] using congrArg Key.ofText? h

theorem value_withValue (s : Settings) (k other : Key) (value : String) :
    (s.withValue k value).value other = if other = k then value else s.value other := by
  cases k <;> cases other <;> rfl

theorem legacyChars_withValue (s : Settings) (k : Key) (value : String) :
    (s.withValue k value).legacyChars = s.legacyChars := by
  cases k <;> rfl

theorem set_eq_ok {key value : String} (h : s.set key value = .ok s') :
    ∃ k : Key, key = k.text ∧ objection? k value = none ∧ s' = s.withValue k value := by
  unfold set at h
  split at h
  · cases h
  · rename_i k hkey
    split at h <;> cases h
    exact ⟨k, Key.ofText?_eq_some.mp hkey, ‹_›, rfl⟩

theorem get?_of_set {key value : String} (h : s.set key value = .ok s') (other : String) :
    s'.get? other = if other = key then some value else s.get? other := by
  obtain ⟨k, rfl, -, rfl⟩ := set_eq_ok h
  unfold get?
  cases hother : Key.ofText? other with
  | none =>
    rw [Option.map_none, Option.map_none, if_neg]
    rintro rfl
    rw [Key.ofText?_text] at hother
    cases hother
  | some k' =>
    obtain rfl := Key.ofText?_eq_some.mp hother
    have hkeys : k'.text = k.text ↔ k' = k := ⟨Key.text_injective, fun he => he ▸ rfl⟩
    rw [Option.map_some, Option.map_some, value_withValue, apply_ite some]
    simp only [hkeys]

theorem eq_of_get? (h : ∀ key, s.get? key = s'.get? key) (hchars : s.legacyChars = s'.legacyChars) : s = s' := by
  have hvalue (k : Key) : s.value k = s'.value k := by
    simpa [get?, Key.ofText?_text] using h k.text
  obtain ⟨nameChars, letters, marksFile, chars⟩ := s
  obtain rfl : nameChars = s'.nameChars := hvalue .nameChars
  obtain rfl : letters = s'.letters := hvalue .letters
  obtain rfl : marksFile = s'.marksFile := hvalue .marksFile
  obtain rfl : chars = s'.legacyChars := hchars
  rfl

theorem legacyChars_of_set {key value : String} (h : s.set key value = .ok s') : s'.legacyChars = s.legacyChars := by
  obtain ⟨k, -, -, rfl⟩ := set_eq_ok h
  exact legacyChars_withValue s k value

-- ---------------------------------------------------------------------------
-- Saving
-- ---------------------------------------------------------------------------

theorem save_eq_error (ht : t.WellFormed) (h : save s base t = .error fault t') : Paves t base t t' := by
  have hpaves := paving_createDirs t base t ht rfl
  rcases stateBind_eq_error.mp h with h | ⟨⟨⟩, t₁, hdirs, h⟩
  · rwa [h] at hpaves
  · rw [hdirs] at hpaves
    rw [Action.write, Action.ofChange] at h
    split at h <;> cases h
    exact hpaves

theorem save_eq_error_of_isDirectory (hdir : t.isDirectory base) (h : save s base t = .error fault t') : t' = t := by
  rw [save, stateBind_of_ok (Tree.createDirs_of_isDirectory hdir), Action.write, Action.ofChange] at h
  split at h <;> cases h
  rfl

/-- Saving puts the text of the settings into its file and changes no other file. -/
structure Saved (t : Tree) (base : String) (s : Settings) (t' : Tree) : Prop where
  wellFormed : t'.WellFormed
  current : t'.current = t.current
  kept : t.Keeps t'
  files : ∀ key, t'.fileAt key = if key = t.keyOf (path base) then some s.toText.toUTF8 else t.fileAt key

theorem save_eq_ok (ht : t.WellFormed) (h : save s base t = .ok () t') : ∃ t₁, Paves t base t t₁ ∧
    t₁.write (path base) s.toText.toUTF8 = .ok t' ∧ Saved t base s t' := by
  have hpaves := paving_createDirs t base t ht rfl
  obtain ⟨⟨⟩, t₁, hdirs, h⟩ := stateBind_eq_ok.mp h
  rw [hdirs] at hpaves
  rw [Action.write, Action.ofChange] at h
  split at h <;> cases h
  rename_i hwrite
  obtain ⟨-, -, hbecomes⟩ := Tree.write_becomes hpaves.wellFormed hwrite
  refine ⟨t₁, hpaves, hwrite, hbecomes.wellFormed, hbecomes.current.trans hpaves.current, fun key hkey => ?_, fun key => ?_⟩
  · exact (Tree.write_directories hpaves.wellFormed hwrite key).mpr (hpaves.keeps key hkey)
  · rw [Tree.fileAt, hbecomes.find?, Tree.keyOf_congr hpaves.current]
    split
    · rfl
    · exact congrFun hpaves.fileAt key

theorem readFile_of_look {place : ContestTests.Key} (h : t.look (path base) = .ok (place, .file s.toText.toUTF8)) :
    readFile t base = .ok { s with legacyChars := none } := by
  have hread : t.readText (path base) = .ok s.toText :=
    Tree.readText_eq_ok.mpr ⟨place, _, h, Text.fromUTF8?_toUTF8 _⟩
  rw [readFile, if_pos (Tree.exists?_of_look h), hread]
  simp only [ofText?_toText]

theorem load_of_saved (ht : t.WellFormed) (hgrounded : t.Grounded base) (hload : load t base = .ok s)
    (h : save s' base t = .ok () t') (hchars : s'.legacyChars = s.legacyChars) : load t' base = .ok s' := by
  obtain ⟨t₁, hpaves, hwrite, -⟩ := save_eq_ok ht h
  rw [← load_of_paves ht hgrounded hpaves] at hload
  obtain ⟨file, chars, -, hlegacy, rfl⟩ := load_eq_ok.mp hload
  have hne : t₁.keyOf (legacyPath base) ≠ t₁.keyOf (path base) := by
    rw [legacyPath, path, Tree.keyOf_join_name t₁ base isName_legacyFile, Tree.keyOf_join_name t₁ base isName_file]
    simp
  rw [← readLegacy_congr (Tree.sameLook_of_write hpaves.wellFormed hwrite hne)] at hlegacy
  have hfile := readFile_of_look (Tree.look_of_write hpaves.wellFormed hwrite)
  obtain rfl : s'.legacyChars = chars := hchars
  exact load_eq_ok.mpr ⟨_, _, hfile, hlegacy, rfl⟩

end Settings

end ContestTests
