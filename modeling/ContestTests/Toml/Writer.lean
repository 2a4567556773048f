import ContestTests.Toml.Reader

/-!
# Writing TOML strings

A string takes the first of these forms that needs no escapes: in quotes, in apostrophes, in triple
quotes, in triple apostrophes. If none fits it is escaped, over several lines if it has line feeds.
-/

namespace ContestTests.Toml

structure Quoting where
  /-- Over several lines, between triple quotes. -/
  long : Bool
  /-- As it is, between apostrophes. -/
  literal : Bool
deriving DecidableEq, Repr

def longestRun (c : Char) (s : List Char) : Nat := go 0 s
where
  go : Nat → List Char → Nat
    | run, [] => run
    | run, d :: rest => if d = c then go (run + 1) rest else max run (go 0 rest)

/-- Control characters other than tabs and line feeds are written as escapes only. -/
def needsEscape (c : Char) : Bool := isControl c && c != '\t' && c != '\n'

def quotingOf (s : List Char) : Quoting :=
  let escapes := s.any needsEscape
  let backslash := s.contains '\\'
  let newline := s.contains '\n'
  let quotes := longestRun '"' s
  let apostrophes := longestRun '\'' s
  if !escapes && !backslash && quotes == 0 && !newline then ⟨false, false⟩
  else if !escapes && apostrophes == 0 && !newline then ⟨false, true⟩
  else if !escapes && !backslash && quotes ≤ 2 then ⟨true, false⟩
  else if !escapes && apostrophes ≤ 2 then ⟨true, true⟩
  else ⟨newline, false⟩

def hexDigit (n : Nat) : Char :=
  if n < 10 then Char.ofNat ('0'.toNat + n) else Char.ofNat ('A'.toNat + n - 10)

/-- The escape of a character, if it has one; line feeds stand for themselves in long strings. -/
def escapeOf (long : Bool) (c : Char) : Option (List Char) :=
  match c with
  | '\x08' => some ['\\', 'b']
  | '\t' => some ['\\', 't']
  | '\n' => if long then none else some ['\\', 'n']
  | '\x0c' => some ['\\', 'f']
  | '\r' => some ['\\', 'r']
  | '\\' => some ['\\', '\\']
  | c =>
    if isControl c then
      some ['\\', 'u', '0', '0', hexDigit (c.toNat / 16), hexDigit (c.toNat % 16)]
    else none

/-- The inside of a string in quotes. Up to two quotes in a row stand for themselves in a long one. -/
def escapeText (long : Bool) (quotes : Nat) : List Char → List Char
  | [] => []
  | '"' :: rest =>
    if long && quotes < 2 then '"' :: escapeText long (quotes + 1) rest
    else '\\' :: '"' :: escapeText long 0 rest
  | c :: rest => (escapeOf long c).getD [c] ++ escapeText long 0 rest

def writeString (s : String) : String :=
  let text := s.toList
  let quoting := quotingOf text
  let mark := if quoting.literal then '\'' else '"'
  let delimiter := if quoting.long then [mark, mark, mark] else [mark]
  let lead := if quoting.long && text.contains '\n' then ['\n'] else []
  let body := if quoting.literal then text else escapeText quoting.long 0 text
  String.ofList (delimiter ++ lead ++ body ++ delimiter)

end ContestTests.Toml
