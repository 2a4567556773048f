import ContestTests.Conversion
import ContestTests.Text.Lower
import ContestTests.Toml.Writer

/-!
# Settings

Settings are kept in a file of a base directory; what the file leaves out has its default. The first
line of a file of an older kind beside it, if it is not blank, gives the characters of task names
instead, literally and in lower case; it is never saved.
-/

namespace ContestTests

open Text
open Template (Alphabet Context)

structure Settings where
  nameChars : String
  letters : String
  marksFile : String
  /-- Characters of task names from the older file, ready to stand in a class. -/
  legacyChars : Option String
deriving DecidableEq, Repr

namespace Settings

def default : Settings :=
  ⟨Template.defaultNameChars, Alphabet.latinLetters, Conversion.defaultMarksFile, none⟩

inductive Key where
  | nameChars
  | letters
  | marksFile
deriving DecidableEq, Repr

namespace Key

def all : List Key := [.nameChars, .letters, .marksFile]

def text : Key → String
  | .nameChars => "pattern.task_name_chars"
  | .letters => "pattern.letters"
  | .marksFile => "output.marks_file"

def ofText? (s : String) : Option Key := all.find? fun key => key.text == s

end Key

def value (s : Settings) : Key → String
  | .nameChars => s.nameChars
  | .letters => s.letters
  | .marksFile => s.marksFile

def withValue (s : Settings) (key : Key) (value : String) : Settings :=
  match key with
  | .nameChars => { s with nameChars := value }
  | .letters => { s with letters := value }
  | .marksFile => { s with marksFile := value }

def get? (s : Settings) (key : String) : Option String := (Key.ofText? key).map s.value

def list (s : Settings) : List (String × String) := Key.all.map fun key => (key.text, s.value key)

def context (s : Settings) : Context :=
  ⟨.chars (s.legacyChars.getD s.nameChars), Alphabet.ofString s.letters⟩

/-- The template that valid characters of task names must be able to compile. -/
def probe : String := "$\x7bTaskName\x7d"

def objection? (key : Key) (value : String) : Option String :=
  match key with
  | .nameChars =>
    if value.isEmpty then some "must not be empty"
    else match Pattern.compile ⟨.chars value, .latin⟩ probe with
      | .ok _ => none
      | .error error => some error.message
  | .letters =>
    if (Alphabet.ofString value).letters.isEmpty then some "must contain at least one letter"
    else none
  | .marksFile =>
    if value.isEmpty || value.toList.any (fun c => c == '/' || c == '\\') then
      some "must be a plain file name"
    else none

def set (s : Settings) (key value : String) : Except Failure Settings :=
  match Key.ofText? key with
  | none => .error (.unknownSetting key)
  | some k =>
    match objection? k value with
    | some reason => .error (.invalidSetting key reason)
    | none => .ok (s.withValue k value)

/-! ### Files -/

def path (base : String) : String := Path.join base "config.toml"

def legacyPath (base : String) : String := Path.join base ".cfg"

def typesDir (base : String) : String := Path.join base "types"

/-- A text under a key, with a default for a missing one. Other values are refused. -/
def textField (entries : Toml.Entries) (key fallback : String) : Option String :=
  match entries.lookup key with
  | none => some fallback
  | some (.string text) => some text
  | some _ => none

def textAt (items : List Toml.Value) (index : Nat) (fallback : String) : Option String :=
  match items[index]? with
  | none => some fallback
  | some (.string text) => some text
  | some _ => none

/-- Texts from a section: named in a table, or in their order in a list. A moment in the place of a
section says nothing. -/
def section? (entries : Toml.Entries) (name : String) (fields : List (String × String)) :
    Option (List String) :=
  match entries.lookup name with
  | none | some (.moment _) => some (fields.map (·.2))
  | some (.table _ inner) => fields.mapM fun (key, fallback) => textField inner key fallback
  | some (.array items) =>
    fields.zipIdx.mapM fun ((_, fallback), index) => textAt items index fallback
  | some (.tables elements) =>
    fields.zipIdx.mapM fun ((_, fallback), index) => textAt elements.reverse index fallback
  | some _ => none

def ofText? (text : String) : Option Settings := do
  let entries ← Toml.read? text
  let pattern ← section? entries "pattern"
    [("task_name_chars", default.nameChars), ("letters", default.letters)]
  let output ← section? entries "output" [("marks_file", default.marksFile)]
  match pattern, output with
  | [nameChars, letters], [marksFile] => some ⟨nameChars, letters, marksFile, none⟩
  | _, _ => none

def toText (s : Settings) : String :=
  "[pattern]\ntask_name_chars = " ++ Toml.writeString s.nameChars ++
    "\nletters = " ++ Toml.writeString s.letters ++
    "\n\n[output]\nmarks_file = " ++ Toml.writeString s.marksFile ++ "\n"

/-- The class body that stands for the first line of a text: its trimmed characters in lower case, each
taken literally. -/
def legacyBody? (content : String) : Option String :=
  let line := trim ((lines content.toList).headD [])
  if line.isEmpty then none else some (String.ofList (Regex.escape (lower line)))

def readLegacy (t : Tree) (base : String) : Except Failure (Option String) :=
  if t.isFile (legacyPath base) then
    match t.readText (legacyPath base) with
    | .ok content => .ok (legacyBody? content)
    | .error fault => .error (.io fault)
  else .ok none

def readFile (t : Tree) (base : String) : Except Failure Settings :=
  if t.exists? (path base) then
    match t.readText (path base) with
    | .error fault => .error (.io fault)
    | .ok content =>
      match ofText? content with
      | some s => .ok s
      | none => .error (.settingsUnreadable (path base))
  else .ok default

def load (t : Tree) (base : String) : Except Failure Settings := do
  let s ← readFile t base
  let legacyChars ← readLegacy t base
  .ok { s with legacyChars }

def save (s : Settings) (base : String) : Action Unit := do
  Action.createDirs base
  Action.write (path base) s.toText.toUTF8

def template : String :=
"# taskconv configuration file
# Location: ~/.taskconv/config.toml

[pattern]
# Characters allowed in $\x7bTaskName\x7d, as the body of a regex character class
# Default: \"a-z\"
# Example: task_name_chars = \"a-z0-9_\"
task_name_chars = \"a-z\"

# Letters used by $\x7bSL\x7d, in test order (the first letter is test 1)
# Default: \"abcdefghijklmnopqrstuvwxyz\"
letters = \"abcdefghijklmnopqrstuvwxyz\"

[output]
# Name of the marks file written next to the converted tests
# Default: \"marks.txt\"
marks_file = \"marks.txt\"
"

def init (base : String) : Action Unit := do
  Action.createDirs base
  if (← get).exists? (path base) then pure () else Action.write (path base) template.toUTF8
  Action.createDirs (typesDir base)

end Settings

end ContestTests
