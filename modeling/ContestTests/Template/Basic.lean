import ContestTests.Template.Context
import ContestTests.Text.Numeral

/-!
# Templates

A template is literal text with placeholders `${Name}`, which must stand for something, and
`$[Name]`, which may stand for nothing. `Template.ofString` splits the text at its placeholders, and
reports the first opening that starts none.
-/

namespace ContestTests

open ContestTests.Text

namespace Template

inductive Field where
  | taskName
  | groupNumber
  | testNumber
  | testLetter
deriving DecidableEq, Repr

inductive Presence where
  | required
  | optional
deriving DecidableEq, Repr

namespace Field

def all : List Field := [.taskName, .groupNumber, .testNumber, .testLetter]

def name : Field → String
  | .taskName => "TaskName"
  | .groupNumber => "S"
  | .testNumber => "SS"
  | .testLetter => "SL"

def ofName? (name : List Char) : Option Field :=
  all.find? fun field => field.name.toList == name

end Field

def Presence.opening : Presence → Char
  | .required => '\x7b'
  | .optional => '['

def Presence.closing : Presence → Char
  | .required => '\x7d'
  | .optional => ']'

structure Placeholder where
  field : Field
  presence : Presence
deriving DecidableEq, Repr

namespace Placeholder

def allowed (p : Placeholder) : Bool :=
  p.presence == .required || p.field matches .testNumber | .testLetter

def text (p : Placeholder) : List Char :=
  '$' :: p.presence.opening :: p.field.name.toList ++ [p.presence.closing]

def expression (context : Context) (p : Placeholder) : List Char :=
  match p.field, p.presence with
  | .taskName, _ => context.name.expression
  | .groupNumber, _ => "[0-9]+".toList
  | .testNumber, .required => "[0-9]+".toList
  | .testNumber, .optional => "[0-9]*".toList
  | .testLetter, .required => context.letters.classText
  | .testLetter, .optional => context.letters.classText ++ ['?']

end Placeholder

inductive Fault where
  /-- The placeholder that opens at this byte is not closed. -/
  | unterminated (offset : Nat)
  | unknownField (name : String)
  | optionalNotAllowed (name : String)
  /-- With this context the template is no expression. -/
  | notAnExpression
  /-- The characters of task names bring groups of their own. -/
  | extraGroups
deriving DecidableEq, Repr

structure Error where
  template : String
  fault : Fault
deriving DecidableEq, Repr

def Error.message (e : Error) : String :=
  match e.fault with
  | .unterminated offset =>
    s!"unterminated placeholder at offset {decimal offset} in \"{e.template}\""
  | .unknownField name => s!"unknown placeholder '{name}' in \"{e.template}\""
  | .optionalNotAllowed name =>
    "placeholder '" ++ name ++ "' must be written as $\x7b" ++ name ++ "\x7d in \"" ++
      e.template ++ "\""
  | .notAnExpression => s!"pattern \"{e.template}\" does not form a valid expression: <regex>"
  | .extraGroups =>
    s!"pattern \"{e.template}\" does not form a valid expression: task name characters add capture groups"

end Template

/-- Each placeholder with the literal text before it, and the text after the last one. -/
structure Template where
  parts : List (List Char × Template.Placeholder)
  tail : List Char
deriving DecidableEq, Repr

namespace Template

def findOpening : List Char → Option (List Char × Presence × List Char)
  | '$' :: '\x7b' :: rest => some ([], .required, rest)
  | '$' :: '[' :: rest => some ([], .optional, rest)
  | c :: rest => (findOpening rest).map fun (before, found) => (c :: before, found)
  | [] => none

def cutAtChar (c : Char) : List Char → Option (List Char × List Char)
  | [] => none
  | d :: rest =>
    if d = c then some ([], rest)
    else (cutAtChar c rest).map fun (before, after) => (d :: before, after)

def byteLength : List Char → Nat
  | [] => 0
  | c :: s => c.utf8Size + byteLength s

/-- Splits a text that starts at a byte offset; every placeholder takes at least one character, so the
length of the text is enough fuel. -/
def readParts : Nat → Nat → List Char → Except Fault Template
  | 0, _, s => .ok ⟨[], s⟩
  | fuel + 1, offset, s =>
    match findOpening s with
    | none => .ok ⟨[], s⟩
    | some (literal, presence, behind) =>
      let start := offset + byteLength literal
      match cutAtChar presence.closing behind with
      | none => .error (.unterminated start)
      | some (name, rest) =>
        match Field.ofName? name with
        | none => .error (.unknownField (String.ofList name))
        | some field =>
          if (Placeholder.mk field presence).allowed then
            -- The dollar sign and the two brackets have one byte each.
            (readParts fuel (start + byteLength name + 3) rest).map fun t =>
              { t with parts := (literal, ⟨field, presence⟩) :: t.parts }
          else .error (.optionalNotAllowed (String.ofList name))

def ofString (s : String) : Except Fault Template :=
  readParts (s.toList.length + 1) 0 s.toList

def toText (t : Template) : List Char :=
  t.parts.flatMap (fun (literal, p) => literal ++ p.text) ++ t.tail

def fields (t : Template) : List Field := t.parts.map (·.2.field)

/-- The expression that reads a whole path, ignoring case, with one group for each placeholder. -/
def expression (context : Context) (t : Template) : List Char :=
  "(?i)^".toList ++
    t.parts.flatMap (fun (literal, p) =>
      Regex.escape literal ++ '(' :: p.expression context ++ [')']) ++
    Regex.escape t.tail ++ ['$']

end Template

end ContestTests
