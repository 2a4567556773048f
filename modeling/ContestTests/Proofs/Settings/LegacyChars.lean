import ContestTests.Proofs.Settings.NameChars
import ContestTests.Proofs.Text.Lines
import ContestTests.Proofs.Text.Lowering

/-!
# Characters from the older file

The first line of the older file is escaped before it becomes the body of a class, so whatever stands there is
one character after the other. Names are then texts of these characters in either case, in every template; what
else the older file says, and the characters in the settings, make no difference.
-/

namespace ContestTests

open ContestTests.Text ContestTests.Regex ContestTests.Template

-- ---------------------------------------------------------------------------
-- Names of escaped characters
-- ---------------------------------------------------------------------------

namespace Template

variable {letters s path : List Char} {cs : List (List Char)} {context : Context}

/-- At least one character, and each folds together with one of the letters. -/
def MadeOf (letters s : List Char) : Prop := s ≠ [] ∧ ∀ c ∈ s, ∃ letter ∈ letters, fold c = fold letter

instance : Decidable (MadeOf letters s) :=
  decidable_of_iff (s ≠ [] ∧ s.all (fun c => letters.any fun letter => fold c == fold letter) = true) (by
    simp [MadeOf])

def NameRule.ofLetters (letters : List Char) : NameRule := .chars (String.ofList (escape letters))

theorem readClass_ofLetters (h : letters ≠ []) :
    readClass false ((String.ofList (escape letters)).toList ++ [']']) = some (letterSet letters, []) := by
  rw [String.toList_ofList]
  exact readClass_letters h []

theorem NameRule.oneClass_ofLetters (h : letters ≠ []) : (NameRule.ofLetters letters).OneClass :=
  ⟨_, readClass_ofLetters h⟩

theorem NameRule.admits_ofLetters (h : letters ≠ []) : (NameRule.ofLetters letters).Admits s ↔ MadeOf letters s := by
  have hletter (c : Char) : (letterSet letters).mem true c ↔ ∃ letter ∈ letters, fold c = fold letter := by
    rw [mem_letterSet_iff]
    simp only [eq_comm]
  constructor
  · rintro ⟨members, hread, hne, hs⟩
    obtain ⟨rfl, -⟩ := Prod.ext_iff.mp (Option.some.inj ((readClass_ofLetters h).symm.trans hread))
    exact ⟨hne, fun c hc => (hletter c).mp (hs c hc)⟩
  · rintro ⟨hne, hs⟩
    exact ⟨_, readClass_ofLetters h, hne, fun c hc => (hletter c).mpr (hs c hc)⟩

def Placeholder.AdmitsMade (letters : List Char) (context : Context) (p : Placeholder) (s : List Char) : Prop :=
  if p.field = .taskName then MadeOf letters s else p.Admits context s

theorem admits_ofLetters (h : letters ≠ []) (hname : context.name = .ofLetters letters) :
    Placeholder.Admits context = Placeholder.AdmitsMade letters context := by
  funext ⟨field, presence⟩ s
  unfold Placeholder.AdmitsMade
  split
  · rename_i hfield
    cases hfield
    rw [Placeholder.Admits, hname]
    exact propext (NameRule.admits_ofLetters h)
  · rfl

/-- Cuts of a path where names are made of the letters. -/
def CutsMade (letters : List Char) (context : Context) (t : Template) : List Char → List (List Char) → Prop :=
  Cuts (Placeholder.AdmitsMade letters context) t.tail t.parts

theorem splits_ofLetters (h : letters ≠ []) (hname : context.name = .ofLetters letters) (t : Template) :
    Splits context t.tail t.parts path cs ↔ CutsMade letters context t path cs := by
  rw [splits_iff_cuts, admits_ofLetters h hname, CutsMade]

end Template

namespace Pattern

variable {letters path : List Char} {context : Context} {template : String} {t : Template} {p : Pattern}

/-- Exactly the paths with such a cut are matched, and what is read are the texts of one. -/
structure ReadsMade (p : Pattern) (letters : List Char) (context : Context) (t : Template) : Prop where
  matches_iff : ∀ path, (p.regex.search path).isSome ↔ ∃ cs, CutsMade letters context t path cs
  read : ∀ path caps, p.regex.search path = some caps → ∃ cs, CutsMade letters context t path cs ∧ caps = numbered 1 cs

theorem readsMade (h : letters ≠ []) (hname : context.name = .ofLetters letters)
    (ht : Template.ofString template = .ok t) (hp : compile context template = .ok p) : p.ReadsMade letters context t := by
  obtain ⟨hmatches, hread⟩ := search_iff (hname ▸ NameRule.oneClass_ofLetters h) ht hp
  refine ⟨fun path => ?_, fun path caps hsearch => ?_⟩
  · simp only [hmatches, splits_ofLetters h hname]
  · obtain ⟨cs, ⟨hcs, -⟩, hcaps⟩ := (hread path caps).mp hsearch
    exact ⟨cs, (splits_ofLetters h hname t).mp hcs, hcaps⟩

theorem matches_nameAlone_iff (h : letters ≠ []) (hname : context.name = .ofLetters letters)
    (hp : compile context Settings.probe = .ok p) : (p.regex.search path).isSome ↔ MadeOf letters path :=
  ((readsMade h hname Settings.ofString_probe hp).matches_iff path).trans cuts_alone

end Pattern

-- ---------------------------------------------------------------------------
-- Loading
-- ---------------------------------------------------------------------------

namespace Settings

open Pattern (compile)

variable {t : Tree} {base text : String} {letters : Alphabet} {line : List Char}

inductive Configures (t : Tree) (base : String) : Alphabet → Prop
  | missing (h : t.exists? (path base) = false) : Configures t base .latin
  | read {content : String} {file : Settings} (hread : t.readText (path base) = .ok content)
      (h : ofText? content = some file) : Configures t base (.ofString file.letters)

def firstLine (text : String) : List Char := trim (text.toList.takeWhile (· ≠ '\n'))

/-- A base directory with the line, which is not blank, as the first one of the older file, and with settings that
give letters. -/
structure HasLine (t : Tree) (base : String) (letters : Alphabet) (line : List Char) : Prop where
  older : ∃ text, t.readText (legacyPath base) = .ok text ∧ firstLine text = line
  notBlank : line ≠ []
  configured : Configures t base letters
  lettered : letters.letters ≠ []

theorem Configures.readFile (h : Configures t base letters) :
    ∃ file, readFile t base = .ok file ∧ Alphabet.ofString file.letters = letters := by
  cases h with
  | missing h => exact ⟨default, by rw [Settings.readFile, h]; rfl, rfl⟩
  | @read content file hread h =>
    obtain ⟨key, bytes, hlook, -⟩ := Tree.readText_eq_ok.mp hread
    refine ⟨file, ?_, rfl⟩
    rw [Settings.readFile, if_pos (Tree.exists?_of_look hlook), hread]
    simp only [h]

theorem legacyBody?_of_firstLine (h : firstLine text ≠ []) :
    legacyBody? text = some (String.ofList (escape (lower (firstLine text)))) := by
  rw [firstLine] at h ⊢
  simp only [legacyBody?, trim_first_line]
  rw [if_neg (by simpa using h)]

theorem readLegacy_of_firstLine (hread : t.readText (legacyPath base) = .ok text) (h : firstLine text ≠ []) :
    readLegacy t base = .ok (some (String.ofList (escape (lower (firstLine text))))) := by
  obtain ⟨key, content, hlook, -⟩ := Tree.readText_eq_ok.mp hread
  rw [readLegacy, if_pos (Tree.isFile_iff.mpr ⟨key, content, hlook⟩), hread]
  simp only [legacyBody?_of_firstLine h]

theorem HasLine.load (h : HasLine t base letters line) :
    ∃ s, load t base = .ok s ∧ s.context = ⟨.ofLetters (lower line), letters⟩ := by
  obtain ⟨text, hread, rfl⟩ := h.older
  obtain ⟨file, hfile, hletters⟩ := h.configured.readFile
  have hlegacy := readLegacy_of_firstLine hread h.notBlank
  refine ⟨_, load_eq_ok.mpr ⟨file, _, hfile, hlegacy, rfl⟩, ?_⟩
  rw [context, hletters]
  rfl

/-- The first line of the older file is taken literally. The settings load, and what compiles by default compiles with
them, with the same fields. A name, alone or in any template, is exactly a text of characters of the line in lower
case, up to folding. The same line with the same letters gives the same context, whatever else the two files say. -/
theorem older_line_taken_literally (h : HasLine t base letters line) : ∃ s, load t base = .ok s ∧
    (∀ template p, compile .default template = .ok p →
      ∃ p', compile s.context template = .ok p' ∧ p'.fields = p.fields) ∧
    (∃ p, compile s.context probe = .ok p ∧ ∀ path, (p.regex.search path).isSome ↔ MadeOf (lower line) path) ∧
    (∀ template t p, Template.ofString template = .ok t → compile s.context template = .ok p →
      p.ReadsMade (lower line) s.context t) ∧
    ∀ t' base', HasLine t' base' letters line → ∃ s', load t' base' = .ok s' ∧ s'.context = s.context := by
  obtain ⟨s, hload, hcontext⟩ := h.load
  have hne : lower line ≠ [] := lower_ne_nil h.notBlank
  have hname : s.context.name = .ofLetters (lower line) := by rw [hcontext]
  have hcompiles {template : String} {t : Template} (ht : Template.ofString template = .ok t) :
      ∃ p, compile s.context template = .ok p := by
    refine Pattern.exists_compile (hname ▸ NameRule.oneClass_ofLetters hne) ht fun _ _ _ => ?_
    rw [hcontext]
    exact h.lettered
  refine ⟨s, hload, fun template p hp => ?_, ?_, fun template t p ht hp => Pattern.readsMade hne hname ht hp, ?_⟩
  · obtain ⟨t, ht, -⟩ := Pattern.compile_eq_ok hp
    obtain ⟨p', hp'⟩ := hcompiles ht
    exact ⟨p', hp', Pattern.fields_of_compile hp hp'⟩
  · obtain ⟨p, hp⟩ := hcompiles ofString_probe
    exact ⟨p, hp, fun path => Pattern.matches_nameAlone_iff hne hname hp⟩
  · intro t' base' h'
    obtain ⟨s', hload', hcontext'⟩ := h'.load
    exact ⟨s', hload', hcontext'.trans hcontext.symm⟩

def brackets : Tree :=
  [(["b"], .directory), (["b", "config.toml"], .file "[pattern]\ntask_name_chars = \"0-9\"\nletters = \"yx\"".toUTF8),
    (["b", ".cfg"], .file " ]^-[&&~~\\É\t\r\n0-9\n".toUTF8)].foldl (fun t (key, entry) => t.put key entry) .empty

theorem older_line_taken_literally_brackets : HasLine brackets "b" (.ofString "yx") "]^-[&&~~\\É".toList ∧
    ∃ s, load brackets "b" = .ok s ∧ (∃ p, compile s.context "$\x7bTaskName\x7d$\x7bS\x7d$[SL].in" = .ok p) ∧
      ∃ p, compile s.context probe = .ok p ∧ (p.regex.search "é]&^".toList).isSome ∧
        ¬(p.regex.search "\\0".toList).isSome := by
  have hconfig : brackets.readText (path "b") = .ok "[pattern]\ntask_name_chars = \"0-9\"\nletters = \"yx\"" := by
    decide +kernel
  have hfile : ofText? "[pattern]\ntask_name_chars = \"0-9\"\nletters = \"yx\"" =
      some ⟨"0-9", "yx", Conversion.defaultMarksFile, none⟩ := by decide +kernel
  have holder : brackets.readText (legacyPath "b") = .ok " ]^-[&&~~\\É\t\r\n0-9\n" := by decide +kernel
  have hline : HasLine brackets "b" (.ofString "yx") "]^-[&&~~\\É".toList :=
    ⟨⟨_, holder, by decide +kernel⟩, by decide, .read hconfig hfile, by decide⟩
  have hdefault : ∃ p, compile .default "$\x7bTaskName\x7d$\x7bS\x7d$[SL].in" = .ok p := ⟨_, rfl⟩
  obtain ⟨p, hp⟩ := hdefault
  obtain ⟨s, hload, hcompiles, ⟨q, hq, haccepts⟩, -, -⟩ := older_line_taken_literally hline
  obtain ⟨p', hp', -⟩ := hcompiles _ p hp
  exact ⟨hline, s, hload, ⟨p', hp'⟩, q, hq, (haccepts _).mpr (by decide +kernel), fun h =>
    absurd ((haccepts _).mp h) (by decide +kernel)⟩

end Settings

end ContestTests
