import ContestTests.Regex.Basic
import ContestTests.Regex.Property

/-!
# Reading escapes and bracketed classes

Every reader takes the text behind the character that announced it and returns what is left. In
verbose mode blanks and comments may stand between tokens. A class is read with a stack of the
brackets that are still open; it ends at the bracket that closes the outermost one.
-/

namespace ContestTests.Regex

open ContestTests.Text

/-- Drops the blanks and comments that do not count in verbose mode. -/
def skipBlanks (verbose : Bool) (s : List Char) : List Char :=
  if verbose then dropRemarks false s else s
where
  dropRemarks : Bool → List Char → List Char
    | _, [] => []
    | true, c :: rest => dropRemarks (c != '\n') rest
    | false, c :: rest =>
      if isBlank c then dropRemarks false rest
      else if c = '#' then dropRemarks true rest
      else c :: rest

/-- Characters that mean something outside classes, and `&`, `-` and `~`. -/
def isMeta (c : Char) : Bool :=
  c matches '\\' | '.' | '+' | '*' | '?' | '(' | ')' | '|' | '[' | ']' | '\x7b' | '\x7d' | '^' |
    '$' | '#' | '&' | '-' | '~'

def escape (s : List Char) : List Char :=
  s.flatMap fun c => if isMeta c then ['\\', c] else [c]

inductive Atom where
  | one (c : Char)
  | several (members : CharSet)
  | place (condition : Look)

def hexDigit? (c : Char) : Option Nat :=
  if c.isDigit then some (c.toNat - '0'.toNat)
  else if 'a' ≤ c ∧ c ≤ 'f' then some (c.toNat - 'a'.toNat + 10)
  else if 'A' ≤ c ∧ c ≤ 'F' then some (c.toNat - 'A'.toNat + 10)
  else none

def charOfNumber? (n : Nat) : Option Char :=
  if n.isValidChar then some (Char.ofNat n) else none

def readHexDigits (verbose : Bool) : Nat → Nat → List Char → Option (Nat × List Char)
  | 0, value, s => some (value, s)
  | _ + 1, _, [] => none
  | count + 1, value, c :: rest => do
    let digit ← hexDigit? c
    readHexDigits verbose count (16 * value + digit) (skipBlanks verbose rest)

def readBraced (verbose : Bool) : Nat → List Char → Option (List Char × List Char)
  | 0, _ => none
  | fuel + 1, s =>
    match skipBlanks verbose s with
    | [] => none
    | c :: rest =>
      if c = '\x7d' then some ([], rest)
      else (readBraced verbose fuel rest).map fun (text, after) => (c :: text, after)

/-- The character behind `\x`, `\u` or `\U`, which take 2, 4 or 8 digits or any number in braces. -/
def readHex (verbose : Bool) (digits : Nat) (s : List Char) : Option (Char × List Char) :=
  match skipBlanks verbose s with
  | [] => none
  | '\x7b' :: rest => do
    let (text, after) ← readBraced verbose (rest.length + 1) rest
    if text.isEmpty then none
    else
      let values ← text.mapM hexDigit?
      let c ← charOfNumber? (values.foldl (fun value digit => 16 * value + digit) 0)
      some (c, skipBlanks verbose after)
  | s => do
    let (value, after) ← readHexDigits verbose digits 0 s
    let c ← charOfNumber? value
    some (c, after)

def cutAt (part : List Char) : List Char → Option (List Char × List Char)
  | [] => if part.isEmpty then some ([], []) else none
  | c :: rest =>
    if part.isPrefixOf (c :: rest) then some ([], (c :: rest).drop part.length)
    else (cutAt part rest).map fun (before, after) => (c :: before, after)

def namedProperty? (text : List Char) : Option CharSet :=
  match cutAt ['!', '='] text with
  | some (name, value) => (propertyValue? name value).map .compl
  | none => match cutAt [':'] text with
    | some (name, value) => propertyValue? name value
    | none => match cutAt ['='] text with
      | some (name, value) => propertyValue? name value
      | none => property? text

def readProperty (verbose : Bool) (s : List Char) : Option (CharSet × List Char) :=
  match skipBlanks verbose s with
  | [] => none
  | '\x7b' :: rest => do
    let (text, after) ← readBraced verbose (rest.length + 1) rest
    let set ← namedProperty? text
    some (set, after)
  | '\\' :: _ => none
  | c :: rest => do
    let set ← property? [c]
    some (set, skipBlanks verbose rest)

def isBoundaryLetter (c : Char) : Bool := c.isAlpha || c == '-'

def readBoundaryName (verbose : Bool) : Nat → List Char → List Char × List Char
  | 0, s => ([], s)
  | _ + 1, [] => ([], [])
  | fuel + 1, c :: rest =>
    if isBoundaryLetter c then
      let (name, after) := readBoundaryName verbose fuel (skipBlanks verbose rest)
      (c :: name, after)
    else ([], c :: rest)

/-- Behind `\b`, a name in braces makes it one of the special boundaries; other braces are left for a
repetition. -/
def readBoundary (verbose : Bool) (s : List Char) : Option (Look × List Char) :=
  match s with
  | '\x7b' :: rest =>
    match skipBlanks verbose rest with
    | [] => none
    | c :: more =>
      if isBoundaryLetter c then
        match readBoundaryName verbose (more.length + 1) (c :: more) with
        | (name, '\x7d' :: after) =>
          match String.ofList name with
          | "start" => some (.wordStart, after)
          | "end" => some (.wordEnd, after)
          | "start-half" => some (.wordStartHalf, after)
          | "end-half" => some (.wordEndHalf, after)
          | _ => none
        | _ => none
      else some (.wordBoundary, s)
  | _ => some (.wordBoundary, s)

/-- What stands behind a backslash. ASCII letters and digits without a meaning are refused, as are
characters outside ASCII; everything else stands for itself. -/
def readEscape (verbose : Bool) : List Char → Option (Atom × List Char)
  | [] => none
  | c :: rest =>
    match c with
    | 'x' => (readHex verbose 2 rest).map fun (c, after) => (.one c, after)
    | 'u' => (readHex verbose 4 rest).map fun (c, after) => (.one c, after)
    | 'U' => (readHex verbose 8 rest).map fun (c, after) => (.one c, after)
    | 'p' => (readProperty verbose rest).map fun (set, after) => (.several set, after)
    | 'P' => (readProperty verbose rest).map fun (set, after) => (.several (.compl set), after)
    | 'a' => some (.one '\x07', rest)
    | 'f' => some (.one '\x0c', rest)
    | 't' => some (.one '\t', rest)
    | 'n' => some (.one '\n', rest)
    | 'r' => some (.one '\r', rest)
    | 'v' => some (.one '\x0b', rest)
    | 'A' => some (.place .textStart, rest)
    | 'z' => some (.place .textEnd, rest)
    | 'b' => (readBoundary verbose rest).map fun (condition, after) => (.place condition, after)
    | 'B' => some (.place .notWordBoundary, rest)
    | '<' => some (.place .wordStart, rest)
    | '>' => some (.place .wordEnd, rest)
    | c =>
      match shortClass? c with
      | some set => some (.several set, rest)
      | none => if c.toNat < 0x80 && !c.isAlphanum then some (.one c, rest) else none

/-- Where in a bracket the next character stands: hyphens at the start are literal, and so is a
closing bracket right behind the opening. -/
inductive Edge where
  | start
  | hyphens
  | body
deriving DecidableEq

/-- A bracket that is still open: the operator and operand that wait for a right side, and the union
of the items since. -/
structure OpenSet where
  negated : Bool
  left : Option (SetOp × CharSet)
  items : CharSet
  edge : Edge

namespace OpenSet

def add (o : OpenSet) (item : CharSet) (edge : Edge) : OpenSet :=
  { o with items := .union o.items item, edge }

/-- What has been read, all operators applied from the left. -/
def value (o : OpenSet) : CharSet :=
  match o.left with
  | none => o.items
  | some (op, left) => op.apply left o.items

def operator (o : OpenSet) (op : SetOp) : OpenSet :=
  { o with left := some (op, o.value), items := .empty, edge := .body }

def close (o : OpenSet) : CharSet := if o.negated then .compl o.value else o.value

end OpenSet

def openSet (verbose : Bool) (s : List Char) : OpenSet × List Char :=
  match skipBlanks verbose s with
  | '^' :: rest => (⟨true, none, .empty, .start⟩, rest)
  | s => (⟨false, none, .empty, .start⟩, s)

def readAsciiClass : List Char → Option (CharSet × List Char)
  | ':' :: rest =>
    let (negated, rest) := match rest with
      | '^' :: rest => (true, rest)
      | rest => (false, rest)
    match rest.dropWhile Char.isAlpha with
    | ':' :: ']' :: after =>
      (asciiClass? (String.ofList (rest.takeWhile Char.isAlpha))).map fun set =>
        (if negated then .compl set else set, after)
    | _ => none
  | _ => none

def readItem (verbose : Bool) : List Char → Option (Atom × List Char)
  | [] => none
  | '\\' :: rest => readEscape verbose rest
  | c :: rest => some (.one c, rest)

def Atom.toSet? : Atom → Option CharSet
  | .one c => some (.single c)
  | .several members => some members
  | .place _ => none

/-- An item or a range. A hyphen before another one or before the closing bracket makes no range. -/
def readRange (verbose : Bool) (s : List Char) : Option (CharSet × List Char) := do
  let (first, after) ← readItem verbose s
  match skipBlanks verbose after with
  | [] => none
  | '-' :: rest =>
    match skipBlanks verbose rest with
    | [] => none
    | c :: more =>
      -- The hyphen is read next, as an item or as part of a difference.
      if c = ']' ∨ c = '-' then
        let set ← first.toSet?
        some (set, '-' :: rest)
      else
        let (last, after) ← readItem verbose (c :: more)
        match first, last with
        | .one a, .one b => if a ≤ b then some (.range a b, after) else none
        | _, _ => none
  | after =>
    let set ← first.toSet?
    some (set, after)

/-- One step inside brackets; `none` in the place of the brackets when the outermost one closed. -/
def classStep (verbose : Bool) (current : OpenSet) (outer : List OpenSet) (s : List Char) :
    Option ((CharSet ⊕ (OpenSet × List OpenSet)) × List Char) :=
  match skipBlanks verbose s with
  | [] => none
  | c :: rest =>
    if c = '-' ∧ current.edge ≠ .body then
      some (.inr (current.add (.single '-') .hyphens, outer), rest)
    else if c = ']' ∧ current.edge = .start then
      some (.inr (current.add (.single ']') .body, outer), rest)
    else match c, rest with
      | '[', rest =>
        match readAsciiClass rest with
        | some (set, after) => some (.inr (current.add set .body, outer), after)
        -- What is no ASCII class is a bracket inside a bracket.
        | none =>
          let (inner, after) := openSet verbose rest
          some (.inr (inner, current :: outer), after)
      -- A bracket that closes an inner class makes the class an item of the outer one.
      | ']', rest =>
        match outer with
        | [] => some (.inl current.close, rest)
        | parent :: outer => some (.inr (parent.add current.close .body, outer), rest)
      | '&', '&' :: rest => some (.inr (current.operator .inter, outer), rest)
      | '-', '-' :: rest => some (.inr (current.operator .diff, outer), rest)
      | '~', '~' :: rest => some (.inr (current.operator .symDiff, outer), rest)
      | c, rest =>
        (readRange verbose (c :: rest)).map fun (set, after) =>
          (.inr (current.add set .body, outer), after)

def classLoop (verbose : Bool) : Nat → OpenSet → List OpenSet → List Char →
    Option (CharSet × List Char)
  | 0, _, _, _ => none
  | fuel + 1, current, outer, s =>
    match classStep verbose current outer s with
    | none => none
    | some (.inl set, after) => some (set, after)
    | some (.inr (current, outer), after) => classLoop verbose fuel current outer after

def readClass (verbose : Bool) (s : List Char) : Option (CharSet × List Char) :=
  let (current, after) := openSet verbose s
  classLoop verbose (after.length + 1) current [] after

end ContestTests.Regex
