import ContestTests.Record
import ContestTests.Regex.Reader
import ContestTests.Template.Basic

/-!
# Patterns

A pattern is a template compiled in a context. It matches a path as a whole, and reads the record of
the file off the groups: a field that is stated several times must agree with itself, and every
path must state a group.
-/

namespace ContestTests

open ContestTests.Text

structure Pattern where
  template : String
  expression : String
  fields : List Template.Field
  regex : Regex
  letters : Template.Alphabet

namespace Pattern

open Template (Field)

/-- Compiles a template. The groups of the expression must be those of its placeholders. -/
def compile (context : Template.Context) (template : String) : Except Template.Error Pattern :=
  match Template.ofString template with
  | .error fault => .error ⟨template, fault⟩
  | .ok parts =>
    let expression := parts.expression context
    match Regex.ofText? expression with
    | none => .error ⟨template, .notAnExpression⟩
    | some regex =>
      if regex.maxCapture = parts.fields.length then
        .ok ⟨template, String.ofList expression, parts.fields, regex, context.letters⟩
      else .error ⟨template, .extraGroups⟩

structure Reading where
  name : Option (List Char)
  group : Option Nat
  test : Option Nat

/-- Takes the text of one more field; nothing if it is unusable or disagrees. -/
def Reading.add (letters : Template.Alphabet) (reading : Reading) (field : Field)
    (text : List Char) : Option Reading :=
  match field with
  | .taskName => (Record.coalesce reading.name text).map fun name => { reading with name := some name }
  | .groupNumber => do
    let group ← Record.coalesce reading.group (← readBelow? bound32 text)
    some { reading with group := some group }
  | .testNumber => do
    let test ← Record.coalesce reading.test (← readBelow? bound32 text)
    some { reading with test := some test }
  | .testLetter => do
    let test ← Record.coalesce reading.test (← letters.position? text)
    some { reading with test := some test }

/-- Reads the groups from the given number on. A group that read nothing says nothing. -/
def readFields (letters : Template.Alphabet) (caps : Regex.Captures) :
    Nat → List Field → Reading → Option Reading
  | _, [], reading => some reading
  | index, field :: fields, reading =>
    match caps.lookup index with
    | none | some [] => readFields letters caps (index + 1) fields reading
    | some text =>
      match reading.add letters field text with
      | none => none
      | some reading => readFields letters caps (index + 1) fields reading

def match? (p : Pattern) (path : String) : Option Record := do
  let caps ← p.regex.search path.toList
  let reading ← readFields p.letters caps 1 p.fields ⟨none, none, none⟩
  let group ← reading.group
  some ⟨path, String.ofList (reading.name.getD []), group, reading.test.getD 1⟩

end Pattern

end ContestTests
