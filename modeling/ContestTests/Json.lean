import ContestTests.Text.Blank
import ContestTests.Text.Numeral

/-!
# JSON documents

Documents are printed with an indent of two blanks for each level, one item or field on a line. Quotes,
backslashes and control characters are escaped, all other characters stand for themselves.
-/

namespace ContestTests

inductive Json where
  | number (n : Nat)
  | text (s : String)
  | list (items : List Json)
  | object (fields : List (String × Json))

namespace Json

def hexDigit (n : Nat) : Char := Char.ofNat (if n < 10 then '0'.toNat + n else 'a'.toNat + (n - 10))

def escapeChar (c : Char) : List Char :=
  match c with
  | '"' => ['\\', '"']
  | '\\' => ['\\', '\\']
  | '\x08' => ['\\', 'b']
  | '\x0c' => ['\\', 'f']
  | '\n' => ['\\', 'n']
  | '\r' => ['\\', 'r']
  | '\t' => ['\\', 't']
  | c =>
    if c.toNat < 0x20 then
      ['\\', 'u', '0', '0', hexDigit (c.toNat / 16), hexDigit (c.toNat % 16)]
    else [c]

def quote (s : String) : List Char := '"' :: s.toList.flatMap escapeChar ++ ['"']

def newLine (level : Nat) : List Char := '\n' :: List.replicate (2 * level) ' '

def block (opening closing : Char) (level : Nat) (items : List (List Char)) : List Char :=
  if items.isEmpty then [opening, closing]
  else opening :: newLine (level + 1) ++ Text.joinWith (',' :: newLine (level + 1)) items ++
    newLine level ++ [closing]

mutual

def renderAt (level : Nat) : Json → List Char
  | number n => (Text.decimal n).toList
  | text s => quote s
  | list items => block '[' ']' level (renderItems (level + 1) items)
  | object fields => block '\x7b' '\x7d' level (renderFields (level + 1) fields)

def renderItems (level : Nat) : List Json → List (List Char)
  | [] => []
  | item :: items => renderAt level item :: renderItems level items

def renderFields (level : Nat) : List (String × Json) → List (List Char)
  | [] => []
  | (key, value) :: fields => (quote key ++ ": ".toList ++ renderAt level value) :: renderFields level fields

end

def render (document : Json) : String := String.ofList (document.renderAt 0)

end Json

end ContestTests
