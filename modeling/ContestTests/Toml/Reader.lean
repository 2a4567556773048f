import ContestTests.Regex.Class
import ContestTests.Text.Numeral
import ContestTests.Toml.Value

/-!
# Reading TOML

`read?` is the document that a text stands for, or nothing if the text breaks a rule of TOML 1.0. Every
reader takes the text from where its item starts and returns what is left behind it.
-/

namespace ContestTests.Toml

open Text
open Regex (hexDigit? charOfNumber?)

abbrev Read (α : Type) := List Char → Option (α × List Char)

/-- Arrays, tables and dotted keys are at most this deep. -/
def depthLimit : Nat := 80

def isSpace (c : Char) : Bool := c == ' ' || c == '\t'

def skipSpaces (s : List Char) : List Char := s.dropWhile isSpace

def isControl (c : Char) : Bool := c.toNat < 0x20 || c.toNat == 0x7F

def isCommentChar (c : Char) : Bool := c == '\t' || !isControl c

def skipComment : List Char → List Char
  | '#' :: rest => rest.dropWhile isCommentChar
  | s => s

def readNewline : List Char → Option (List Char)
  | '\n' :: rest => some rest
  | '\r' :: '\n' :: rest => some rest
  | _ => none

def readLineEnd : List Char → Option (List Char)
  | [] => some []
  | s => readNewline s

def readTrailing (s : List Char) : Option (List Char) :=
  readLineEnd (skipComment (skipSpaces s))

/-- Spaces, comments and line breaks; the length of the text is enough fuel. -/
def skipFiller : Nat → List Char → Option (List Char)
  | 0, s => some s
  | fuel + 1, s =>
    match skipSpaces s with
    | '#' :: rest =>
      match readNewline (rest.dropWhile isCommentChar) with
      | some rest => skipFiller fuel rest
      | none => none
    | s =>
      match readNewline s with
      | some rest => skipFiller fuel rest
      | none => some s

/-! ### Strings -/

def hexChar? (digits : List Char) : Option Char := do
  let values ← digits.mapM hexDigit?
  charOfNumber? (values.foldl (fun value digit => 16 * value + digit) 0)

def readEscape : Read Char
  | 'b' :: rest => some ('\x08', rest)
  | 't' :: rest => some ('\t', rest)
  | 'n' :: rest => some ('\n', rest)
  | 'f' :: rest => some ('\x0c', rest)
  | 'r' :: rest => some ('\r', rest)
  | '"' :: rest => some ('"', rest)
  | '\\' :: rest => some ('\\', rest)
  | 'u' :: rest =>
    if (rest.take 4).length = 4 then (hexChar? (rest.take 4)).map (·, rest.drop 4) else none
  | 'U' :: rest =>
    if (rest.take 8).length = 8 then (hexChar? (rest.take 8)).map (·, rest.drop 8) else none
  | _ => none

def readBasic : Nat → Read (List Char)
  | 0, _ => none
  | _ + 1, [] => none
  | _ + 1, '"' :: rest => some ([], rest)
  | fuel + 1, '\\' :: rest => do
    let (c, rest) ← readEscape rest
    let (text, rest) ← readBasic fuel rest
    some (c :: text, rest)
  | fuel + 1, c :: rest =>
    if isCommentChar c then (readBasic fuel rest).map fun (text, rest) => (c :: text, rest)
    else none

def readLiteral : Read (List Char)
  | [] => none
  | '\'' :: rest => some ([], rest)
  | c :: rest =>
    if isCommentChar c then (readLiteral rest).map fun (text, rest) => (c :: text, rest)
    else none

/-- Up to two quotes that stand before the closing ones belong to the string. -/
def closeTriple (quote : Char) : List Char → List Char × List Char
  | a :: b :: rest =>
    if a = quote ∧ b = quote then ([quote, quote], rest)
    else if a = quote then ([quote], b :: rest)
    else ([], a :: b :: rest)
  | [a] => if a = quote then ([quote], []) else ([], [a])
  | [] => ([], [])

def skipBreaks : Nat → List Char → List Char
  | 0, s => s
  | fuel + 1, s =>
    match readNewline (skipSpaces s) with
    | some rest => skipBreaks fuel rest
    | none => skipSpaces s

def readLongBasic : Nat → Read (List Char)
  | 0, _ => none
  | _ + 1, [] => none
  | _ + 1, '"' :: '"' :: '"' :: rest => some (closeTriple '"' rest)
  | fuel + 1, '\\' :: rest =>
    match readNewline (skipSpaces rest) with
    | some after => readLongBasic fuel (skipBreaks after.length after)
    | none => do
      let (c, rest) ← readEscape rest
      let (text, rest) ← readLongBasic fuel rest
      some (c :: text, rest)
  | fuel + 1, '\r' :: '\n' :: rest =>
    (readLongBasic fuel rest).map fun (text, rest) => ('\n' :: text, rest)
  | fuel + 1, c :: rest =>
    if c = '\n' ∨ isCommentChar c then
      (readLongBasic fuel rest).map fun (text, rest) => (c :: text, rest)
    else none

def readLongLiteral : Read (List Char)
  | [] => none
  | '\'' :: '\'' :: '\'' :: rest => some (closeTriple '\'' rest)
  | '\r' :: '\n' :: rest => (readLongLiteral rest).map fun (text, rest) => ('\n' :: text, rest)
  | c :: rest =>
    if c = '\n' ∨ isCommentChar c then
      (readLongLiteral rest).map fun (text, rest) => (c :: text, rest)
    else none

def dropBreak (s : List Char) : List Char := (readNewline s).getD s

def readString : Read (List Char)
  | '"' :: '"' :: '"' :: rest =>
    let body := dropBreak rest
    readLongBasic (body.length + 1) body
  | '"' :: rest => readBasic (rest.length + 1) rest
  | '\'' :: '\'' :: '\'' :: rest => readLongLiteral (dropBreak rest)
  | '\'' :: rest => readLiteral rest
  | _ => none

/-! ### Keys -/

def isBareChar (c : Char) : Bool := c.toNat < 0x80 && (c.isAlphanum || c == '-' || c == '_')

def readSimpleKey : Read (List Char)
  | '"' :: rest => readBasic (rest.length + 1) rest
  | '\'' :: rest => readLiteral rest
  | s =>
    if (s.takeWhile isBareChar).isEmpty then none
    else some (s.takeWhile isBareChar, s.dropWhile isBareChar)

def readKeys : Nat → Read (List String)
  | 0, _ => none
  | fuel + 1, s => do
    let (key, rest) ← readSimpleKey (skipSpaces s)
    match skipSpaces rest with
    | '.' :: rest =>
      let (keys, rest) ← readKeys fuel rest
      some (String.ofList key :: keys, rest)
    | rest => some ([String.ofList key], rest)

def readKey (s : List Char) : Option ((List String × String) × List Char) := do
  let (keys, rest) ← readKeys depthLimit s
  let last ← keys.getLast?
  if keys.length < depthLimit then some ((keys.dropLast, last), rest) else none

/-! ### Numbers and moments -/

def readDigits (count : Nat) (s : List Char) : Option (Nat × List Char) :=
  if (s.take count).length = count ∧ (s.take count).all Char.isDigit then
    some (ofDigits (s.take count), s.drop count)
  else none

def readChar (c : Char) : List Char → Option (List Char)
  | d :: rest => if d = c then some rest else none
  | [] => none

def readField (count least most : Nat) (s : List Char) : Option (Nat × List Char) :=
  (readDigits count s).filter fun (n, _) => least ≤ n && n ≤ most

def isLeapYear (year : Nat) : Bool := year % 4 == 0 && (year % 100 != 0 || year % 400 == 0)

def daysOf (year month : Nat) : Nat :=
  match month with
  | 2 => if isLeapYear year then 29 else 28
  | 4 | 6 | 9 | 11 => 30
  | _ => 31

def skipDate (s : List Char) : Option (List Char) := do
  let (year, s) ← readDigits 4 s
  let s ← readChar '-' s
  let (month, s) ← readField 2 1 12 s
  let s ← readChar '-' s
  let (_, s) ← readField 2 1 (daysOf year month) s
  some s

def skipTime (s : List Char) : Option (List Char) := do
  let (_, s) ← readField 2 0 23 s
  let s ← readChar ':' s
  let (_, s) ← readField 2 0 59 s
  let s ← readChar ':' s
  let (_, s) ← readField 2 0 60 s
  match s with
  | '.' :: rest => if rest.head?.any Char.isDigit then some (rest.dropWhile Char.isDigit) else some s
  | s => some s

def skipOffset (s : List Char) : Option (List Char) :=
  match s with
  | c :: rest =>
    if c = 'Z' ∨ c = 'z' then some rest
    else if c = '+' ∨ c = '-' then do
      let (_, rest) ← readField 2 0 23 rest
      let rest ← readChar ':' rest
      let (_, rest) ← readField 2 0 59 rest
      some rest
    else some s
  | [] => some []

/-- A date, perhaps with a time behind a `T` or a space and with an offset; or a time. -/
def skipMoment (s : List Char) : Option (List Char) :=
  match skipDate s with
  | some rest =>
    match rest with
    | c :: behind =>
      if c = 'T' ∨ c = 't' ∨ c = ' ' then
        match skipTime behind with
        | some after => skipOffset after
        | none => some rest
      else some rest
    | [] => some []
  | none => skipTime s

def readGrouped (isDigit : Char → Bool) : Read (List Char)
  | [] => none
  | c :: rest =>
    if isDigit c then
      match rest with
      | '_' :: d :: more =>
        (readGrouped isDigit (d :: more)).map fun (digits, rest) => (c :: digits, rest)
      | d :: more =>
        if isDigit d then
          (readGrouped isDigit (d :: more)).map fun (digits, rest) => (c :: digits, rest)
        else if d = '_' then none
        else some ([c], d :: more)
      | [] => some ([c], [])
    else none

def readSign : List Char → Bool × List Char
  | '-' :: rest => (true, rest)
  | '+' :: rest => (false, rest)
  | s => (false, s)

def readPlain : Read (List Char)
  | '0' :: rest => some (['0'], rest)
  | s => readGrouped Char.isDigit s

/-- Whether `n * 10 ^ exponent` is beyond the greatest binary number of 64 bits. -/
def overflows (n : Nat) (exponent : Int) : Bool :=
  let bound := Nat.pow 2 1024 - Nat.pow 2 970
  let size := (Text.decimal n).length + exponent
  if n = 0 ∨ size < 300 then false
  else if size > 320 then true
  else if exponent < 0 then n ≥ bound * Nat.pow 10 exponent.natAbs
  else n * Nat.pow 10 exponent.natAbs ≥ bound

def readExponent (s : List Char) : Option (Int × List Char) := do
  let (negative, s) := readSign s
  let (digits, s) ← readGrouped Char.isDigit s
  let n : Int := ofDigits digits
  some (if negative then -n else n, s)

def readFraction (s : List Char) : Option ((List Char × Int) × List Char) :=
  match s with
  | '.' :: rest => do
    let (digits, rest) ← readGrouped Char.isDigit rest
    match rest with
    | 'e' :: rest | 'E' :: rest =>
      let (exponent, rest) ← readExponent rest
      some ((digits, exponent), rest)
    | rest => some ((digits, 0), rest)
  | 'e' :: rest | 'E' :: rest => do
    let (exponent, rest) ← readExponent rest
    some (([], exponent), rest)
  | _ => none

def textRead (start stop : List Char) : String :=
  String.ofList (start.take (start.length - stop.length))

def integerOf (base : Nat) (negative : Bool) (digits : List Char) : Option Int := do
  let values ← digits.mapM hexDigit?
  let n := values.foldl (fun value digit => base * value + digit) 0
  if negative then if n ≤ bound63 then some (-(n : Int)) else none
  else if n < bound63 then some n else none

def isOctal (c : Char) : Bool := '0' ≤ c && c ≤ '7'

def isBinary (c : Char) : Bool := c == '0' || c == '1'

def readInBase (base : Nat) (isDigit : Char → Bool) (s : List Char) :
    Option (Value × List Char) := do
  let (digits, rest) ← readGrouped isDigit s
  let n ← integerOf base false digits
  some (.integer n, rest)

def readNumber (s : List Char) : Option (Value × List Char) :=
  match s with
  | '0' :: 'x' :: rest => readInBase 16 (fun c => (hexDigit? c).isSome) rest
  | '0' :: 'o' :: rest => readInBase 8 isOctal rest
  | '0' :: 'b' :: rest => readInBase 2 isBinary rest
  | s =>
    match skipMoment s with
    | some rest => some (.moment (textRead s rest), rest)
    | none =>
      let (negative, body) := readSign s
      match body with
      | 'i' :: 'n' :: 'f' :: rest => some (.float (textRead s rest), rest)
      | 'n' :: 'a' :: 'n' :: rest => some (.float (textRead s rest), rest)
      | body => do
        let (digits, rest) ← readPlain body
        match rest with
        | '.' :: _ | 'e' :: _ | 'E' :: _ =>
          let ((fraction, exponent), rest) ← readFraction rest
          -- A float too great for 64 bits is refused; below the least one, minus infinity is taken.
          if !negative && overflows (ofDigits (digits ++ fraction)) (exponent - fraction.length)
          then none
          else some (.float (textRead s rest), rest)
        | rest =>
          let n ← integerOf 10 negative digits
          some (.integer n, rest)

/-! ### Values -/

mutual

def readValue : Nat → Nat → Read Value
  | 0, _, _ => none
  | fuel + 1, depth, s =>
    match s with
    | '"' :: _ | '\'' :: _ =>
      (readString s).map fun (text, rest) => (.string (String.ofList text), rest)
    | '[' :: rest =>
      if depth = 0 then none
      else (readItems fuel (depth - 1) rest).map fun (items, rest) => (.array items, rest)
    | '\x7b' :: rest =>
      if depth = 0 then none
      else match skipSpaces rest with
        | '\x7d' :: rest => some (.table .inline [], rest)
        | rest =>
          (readPairs fuel (depth - 1) [] rest).map fun (entries, rest) =>
            (.table .inline entries, rest)
    | 't' :: 'r' :: 'u' :: 'e' :: rest => some (.boolean true, rest)
    | 'f' :: 'a' :: 'l' :: 's' :: 'e' :: rest => some (.boolean false, rest)
    | 'i' :: 'n' :: 'f' :: rest => some (.float "inf", rest)
    | 'n' :: 'a' :: 'n' :: rest => some (.float "nan", rest)
    | c :: _ => if c.isDigit || c == '+' || c == '-' then readNumber s else none
    | [] => none

def readItems : Nat → Nat → Read (List Value)
  | 0, _, _ => none
  | fuel + 1, depth, s => do
    match ← skipFiller s.length s with
    | ']' :: rest => some ([], rest)
    | s =>
      let (item, rest) ← readValue fuel depth s
      match ← skipFiller rest.length rest with
      | ']' :: rest => some ([item], rest)
      | ',' :: rest =>
        let (items, rest) ← readItems fuel depth rest
        some (item :: items, rest)
      | _ => none

def readPairs : Nat → Nat → Entries → Read Entries
  | 0, _, _, _ => none
  | fuel + 1, depth, entries, s => do
    let ((path, key), rest) ← readKey s
    let rest ← readChar '=' rest
    let (value, rest) ← readValue fuel depth (skipSpaces rest)
    let entries ← entries.assign path key value
    match skipSpaces rest with
    | '\x7d' :: rest => some (entries, rest)
    | ',' :: rest => readPairs fuel depth entries rest
    | _ => none

end

/-! ### Documents -/

/-- The tables read so far and the path of the one that is open. -/
structure Document where
  entries : Entries
  path : List String

def readPair (d : Document) (s : List Char) : Option (Document × List Char) := do
  let ((path, key), rest) ← readKey s
  let rest ← readChar '=' rest
  let body := skipSpaces rest
  -- Every character opens at most one value and one step of the list around it.
  let (value, rest) ← readValue (2 * body.length + 2) (depthLimit - 1) body
  let rest ← readTrailing rest
  let entries ← d.entries.changeAt (Entries.assign path key value) d.path
  some ({ d with entries }, rest)

def readHeader (d : Document) (s : List Char) : Option (Document × List Char) :=
  match s with
  | '[' :: rest => do
    let ((path, key), rest) ← readKey rest
    let rest ← readChar ']' rest
    let rest ← readChar ']' rest
    let rest ← readTrailing rest
    let entries ← d.entries.changeAt (Entries.openElement key) path
    some (⟨entries, path ++ [key]⟩, rest)
  | rest => do
    let ((path, key), rest) ← readKey rest
    let rest ← readChar ']' rest
    let rest ← readTrailing rest
    let entries ← d.entries.changeAt (Entries.openTable key) path
    some (⟨entries, path ++ [key]⟩, rest)

def readLines : Nat → Document → List Char → Option Entries
  | 0, _, _ => none
  | fuel + 1, d, s =>
    match skipSpaces s with
    | [] => some d.entries
    | '#' :: rest => do readLines fuel d (← readLineEnd (rest.dropWhile isCommentChar))
    | '[' :: rest => do
      let (d, rest) ← readHeader d rest
      readLines fuel d rest
    | s =>
      match readNewline s with
      | some rest => readLines fuel d rest
      | none => do
        let (d, rest) ← readPair d s
        readLines fuel d rest

/-- The tables and values of a document. A byte order mark may come first. -/
def read? (text : String) : Option Entries :=
  let s := match text.toList with
    | '\ufeff' :: rest => rest
    | s => s
  readLines (s.length + 1) ⟨[], []⟩ s

end ContestTests.Toml
