import ContestTests.Text.Blank
import ContestTests.Text.Numeral

/-!
# Definitions of naming schemes

The first two lines of a definition are the templates of input and output files. Lines that start
with `AUTOSUM` or `SET` in any letter case are directives, of which the last one of a kind counts; all
other lines are remarks.
-/

namespace ContestTests

open Text

inductive GroupSet where
  | tokens (names : List String)
  | pattern (text : String)
deriving DecidableEq, Repr

structure Directives where
  autosum : Option Int
  groups : Option GroupSet
deriving DecidableEq, Repr

def Directives.none : Directives := ⟨.none, .none⟩

structure Definition where
  name : String
  input : String
  output : String
  directives : Directives
deriving DecidableEq, Repr

namespace Definition

inductive Problem where
  /-- The line of this kind is missing or blank. -/
  | missingTemplate (line : String)
  | invalidAutosum (value : String)
deriving DecidableEq, Repr

structure Error where
  name : String
  problem : Problem
deriving DecidableEq, Repr

def Error.message (e : Error) : String :=
  match e.problem with
  | .missingTemplate line => s!"task type \"{e.name}\" has no {line} template"
  | .invalidAutosum value =>
    s!"task type \"{e.name}\": AUTOSUM expects an integer, got \"{value}\""

def ofTemplates (name input output : String) : Definition := ⟨name, input, output, .none⟩

/-- A template is what a line holds before the blanks at its end, and must not be empty. -/
def template? : Option (List Char) → Option String
  | none => none
  | some line => if (trimEnd line).isEmpty then none else some (String.ofList (trimEnd line))

/-- Names between braces, or else a pattern. -/
def groupSet (value : List Char) : GroupSet :=
  match value with
  | '\x7b' :: inner =>
    if inner.getLast? = some '\x7d' then
      .tokens (((splitOn ',' inner.dropLast).map trim).filter (!·.isEmpty) |>.map String.ofList)
    else .pattern (String.ofList value)
  | _ => .pattern (String.ofList value)

def keyAndValue (line : List Char) : List Char × List Char :=
  match splitAtBlank line with
  | some (key, value) => (key, trim value)
  | none => (line, [])

def addLine (directives : Directives) (line : List Char) : Except Problem Directives :=
  let (key, value) := keyAndValue (trim line)
  if sameIgnoringAsciiCase key "AUTOSUM".toList then
    match readSigned? bound63 value with
    | some n => .ok { directives with autosum := some n }
    | none => .error (.invalidAutosum (String.ofList value))
  else if sameIgnoringAsciiCase key "SET".toList then
    .ok { directives with groups := some (groupSet value) }
  else .ok directives

def ofText (name content : String) : Except Error Definition :=
  let all := lines content.toList
  match template? all.head? with
  | none => .error ⟨name, .missingTemplate "input"⟩
  | some input =>
    match template? all.tail.head? with
    | none => .error ⟨name, .missingTemplate "output"⟩
    | some output =>
      match all.tail.tail.foldlM addLine Directives.none with
      | .error problem => .error ⟨name, problem⟩
      | .ok directives => .ok ⟨name, input, output, directives⟩

end Definition

end ContestTests
