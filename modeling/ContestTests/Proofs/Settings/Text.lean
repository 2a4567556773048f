import ContestTests.Proofs.Toml.Strings
import ContestTests.Settings

/-!
# Settings are read as they were written

The text of saved settings is a document of TOML, whatever their values hold, and reading it gives the same
values back. The characters from the older file are not in it.
-/

namespace ContestTests

namespace Toml

variable {s rest : List Char} {d d' : Document} {text key : String} {fuel : Nat}

-- ---------------------------------------------------------------------------
-- Lines
-- ---------------------------------------------------------------------------

theorem readTrailing_newline (rest : List Char) : readTrailing ('\n' :: rest) = some rest := rfl

theorem unquoted_writeString (text : String) (rest : List Char) :
    ∃ c more, (writeString text).toList ++ rest = c :: more ∧ isSpace c = false ∧ (c = '"' ∨ c = '\'') := by
  simp only [writeString, String.toList_ofList]
  rcases quotingOf text.toList with ⟨long, literal⟩
  cases long with
  | false => cases literal <;> exact ⟨_, _, rfl, rfl, by simp⟩
  | true => cases literal <;> exact ⟨_, _, rfl, rfl, by simp⟩

theorem readValue_writeString (fuel depth : Nat) (text : String) (rest : List Char) :
    readValue (fuel + 1) depth ((writeString text).toList ++ '\n' :: rest) = some (.string text, '\n' :: rest) := by
  have hread : readString ((writeString text).toList ++ '\n' :: rest) = some (text.toList, '\n' :: rest) :=
    readString_writeString text (unquoted_cons.mpr (by decide)) (unquoted_cons.mpr (by decide))
  obtain ⟨c, more, hstart, -, hquote⟩ := unquoted_writeString text ('\n' :: rest)
  rw [hstart] at hread ⊢
  rcases hquote with rfl | rfl
  · simp only [readValue, hread, Option.map_some, String.ofList_toList]
  · simp only [readValue, hread, Option.map_some, String.ofList_toList]

def textLine (key text : String) : List Char :=
  key.toList ++ (' ' :: '=' :: ' ' :: ((writeString text).toList ++ ['\n']))

theorem readPair_textLine (hkey : ∀ rest, readKey (key.toList ++ ' ' :: '=' :: rest) = some (([], key), '=' :: rest))
    (hassign : d.entries.changeAt (Entries.assign [] key (.string text)) d.path = some d'.entries)
    (hpath : d'.path = d.path) : readPair d (textLine key text ++ rest) = some (d', rest) := by
  obtain ⟨entries, path⟩ := d'
  cases hpath
  have hline : textLine key text ++ rest =
      key.toList ++ ' ' :: '=' :: ' ' :: ((writeString text).toList ++ '\n' :: rest) := by
    simp only [textLine, List.append_assoc, List.cons_append, List.nil_append]
  obtain ⟨c, more, hstart, hspace, -⟩ := unquoted_writeString text ('\n' :: rest)
  have hskip : skipSpaces (' ' :: ((writeString text).toList ++ '\n' :: rest)) =
      (writeString text).toList ++ '\n' :: rest := by
    rw [hstart, skipSpaces, List.dropWhile_cons_of_pos (by decide), List.dropWhile_cons_of_neg (by simp [hspace])]
  simp only [readPair, hline, hkey, readChar, Option.bind_eq_bind, Option.bind_some, if_true, hskip,
    readValue_writeString, readTrailing_newline, hassign]

theorem readLines_pair {c : Char} (hspace : isSpace c = false) (hcomment : c ≠ '#') (hheader : c ≠ '[')
    (hline : c ≠ '\n') (hreturn : c ≠ '\r') (h : readPair d (c :: s) = some (d', rest)) :
    readLines (fuel + 1) d (c :: s) = readLines fuel d' rest := by
  have hskip : skipSpaces (c :: s) = c :: s := List.dropWhile_cons_of_neg (by simp [hspace])
  rw [readLines, hskip]
  simp [hcomment, hheader, hline, hreturn, readNewline, h]

theorem readLines_header (h : readHeader d s = some (d', rest)) :
    readLines (fuel + 1) d ('[' :: s) = readLines fuel d' rest := by
  rw [readLines]
  simp [skipSpaces, isSpace, h]

theorem readLines_newline (fuel : Nat) (d : Document) (rest : List Char) :
    readLines (fuel + 1) d ('\n' :: rest) = readLines fuel d rest := rfl

end Toml

namespace Settings

open Toml (textLine read? readLines readPair readHeader Document)

variable {s : Settings}

theorem toList_toText (s : Settings) : s.toText.toList =
    "[pattern]\n".toList ++ (textLine "task_name_chars" s.nameChars ++ (textLine "letters" s.letters ++
      ("\n[output]\n".toList ++ textLine "marks_file" s.marksFile))) := by
  have hpattern : "[pattern]\ntask_name_chars = ".toList =
      "[pattern]\n".toList ++ ("task_name_chars".toList ++ [' ', '=', ' ']) := by decide +kernel
  have hletters : "\nletters = ".toList = '\n' :: ("letters".toList ++ [' ', '=', ' ']) := by decide +kernel
  have houtput : "\n\n[output]\nmarks_file = ".toList =
      '\n' :: ("\n[output]\n".toList ++ ("marks_file".toList ++ [' ', '=', ' '])) := by decide +kernel
  have hend : "\n".toList = ['\n'] := rfl
  unfold toText
  simp only [textLine, String.toList_append, hpattern, hletters, houtput, hend, List.append_assoc,
    List.cons_append, List.nil_append]

def entriesOf (s : Settings) : Toml.Entries :=
  [("pattern", .table .header [("task_name_chars", .string s.nameChars), ("letters", .string s.letters)]),
    ("output", .table .header [("marks_file", .string s.marksFile)])]

theorem readPair_nameChars (s : Settings) (rest : List Char) :
    readPair ⟨[("pattern", .table .header [])], ["pattern"]⟩ (textLine "task_name_chars" s.nameChars ++ rest) =
      some (⟨[("pattern", .table .header [("task_name_chars", .string s.nameChars)])], ["pattern"]⟩, rest) :=
  Toml.readPair_textLine (fun _ => rfl) rfl rfl

theorem readPair_letters (s : Settings) (rest : List Char) :
    readPair ⟨[("pattern", .table .header [("task_name_chars", .string s.nameChars)])], ["pattern"]⟩
        (textLine "letters" s.letters ++ rest) =
      some (⟨[("pattern", .table .header [("task_name_chars", .string s.nameChars), ("letters", .string s.letters)])],
        ["pattern"]⟩, rest) :=
  Toml.readPair_textLine (fun _ => rfl) rfl rfl

theorem readPair_marksFile (s : Settings) (rest : List Char) :
    readPair ⟨[("pattern", .table .header [("task_name_chars", .string s.nameChars), ("letters", .string s.letters)]),
        ("output", .table .header [])], ["output"]⟩ (textLine "marks_file" s.marksFile ++ rest) =
      some (⟨entriesOf s, ["output"]⟩, rest) :=
  Toml.readPair_textLine (fun _ => rfl) rfl rfl

theorem readLines_toText (fuel : Nat) (s : Settings) : readLines (fuel + 7) ⟨[], []⟩ s.toText.toList = some (entriesOf s) := by
  have hpattern (rest : List Char) : readHeader ⟨[], []⟩ ("pattern]\n".toList ++ rest) =
      some (⟨[("pattern", .table .header [])], ["pattern"]⟩, rest) := rfl
  have houtput (rest : List Char) : readHeader ⟨[("pattern", .table .header [("task_name_chars", .string s.nameChars),
      ("letters", .string s.letters)])], ["pattern"]⟩ ("output]\n".toList ++ rest) =
        some (⟨[("pattern", .table .header [("task_name_chars", .string s.nameChars), ("letters", .string s.letters)]),
          ("output", .table .header [])], ["output"]⟩, rest) := rfl
  have hmarks := readPair_marksFile s []
  rw [List.append_nil] at hmarks
  rw [toList_toText]
  refine (Toml.readLines_header (hpattern _)).trans ?_
  refine (Toml.readLines_pair rfl (by decide) (by decide) (by decide) (by decide) (readPair_nameChars s _)).trans ?_
  refine (Toml.readLines_pair rfl (by decide) (by decide) (by decide) (by decide) (readPair_letters s _)).trans ?_
  refine (Toml.readLines_newline _ _ _).trans ?_
  refine (Toml.readLines_header (houtput _)).trans ?_
  exact Toml.readLines_pair rfl (by decide) (by decide) (by decide) (by decide) hmarks

theorem read?_toText (s : Settings) : read? s.toText = some (entriesOf s) := by
  have hlength : 7 ≤ s.toText.toList.length + 1 := by
    have hpattern : "[pattern]\n".toList.length = 10 := rfl
    rw [toList_toText, List.length_append, hpattern]
    omega
  obtain ⟨fuel, hfuel⟩ := Nat.exists_eq_add_of_le' hlength
  unfold read?
  split
  · rename_i hmark
    rw [toList_toText] at hmark
    cases hmark
  · dsimp only
    rw [hfuel]
    exact readLines_toText fuel s

/-- Settings are read from their text, without the characters from the older file. -/
theorem ofText?_toText (s : Settings) : ofText? s.toText = some { s with legacyChars := none } := by
  rw [ofText?, read?_toText]
  rfl

end Settings

end ContestTests
