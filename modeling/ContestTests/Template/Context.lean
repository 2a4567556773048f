import ContestTests.Regex.Class
import ContestTests.Text.Blank

/-!
# What placeholders may stand for

A context says which texts are task names and which letters number tests.
-/

namespace ContestTests.Template

open ContestTests.Text

inductive NameRule where
  /-- One or more characters of the class between brackets with this body. -/
  | chars (body : String)
  /-- This name alone. -/
  | fixed (name : String)
deriving DecidableEq, Repr

/-- The letters of tests in order; the first is test 1. -/
structure Alphabet where
  letters : List Char
deriving DecidableEq, Repr

namespace Alphabet

/-- Letters are lower-cased; blanks and repeats do not count. -/
def ofString (s : String) : Alphabet :=
  ⟨((s.toList.flatMap lowerChar).filter fun c => !isBlank c).eraseDups⟩

def latinLetters : String := "abcdefghijklmnopqrstuvwxyz"

def latin : Alphabet := ofString latinLetters

def position? (a : Alphabet) (letter : List Char) : Option Nat :=
  match letter.flatMap lowerChar with
  | [c] => (a.letters.idxOf? c).map (· + 1)
  | _ => none

def classText (a : Alphabet) : List Char :=
  '[' :: Regex.escape a.letters ++ [']']

end Alphabet

structure Context where
  name : NameRule
  letters : Alphabet
deriving DecidableEq, Repr

def defaultNameChars : String := "a-z"

def Context.default : Context := ⟨.chars defaultNameChars, .latin⟩

def Context.withFixedName (context : Context) (name : String) : Context :=
  { context with name := .fixed name }

def NameRule.expression : NameRule → List Char
  | .chars body => '[' :: body.toList ++ [']', '+']
  | .fixed name => Regex.escape name.toList

end ContestTests.Template
