import ContestTests.Regex.Class

/-!
# Reading expressions

The text is read from left to right with a stack of the groups that are still open. `Regex.ofText?`
is `none` exactly when the text is no expression; which fault it has is not told. An expression may be as
large and as deeply nested as it likes.
-/

namespace ContestTests.Regex

open ContestTests.Text

/-- Switches that hold from where they are set to the end of the group. -/
structure Flags where
  ignoreCase : Bool
  multiLine : Bool
  dotAll : Bool
  swapGreed : Bool
  crlf : Bool
  verbose : Bool

def Flags.none : Flags := ⟨false, false, false, false, false, false⟩

/-- Turns the switch of a letter on or off. The byte-oriented mode `-u` is not in the language. -/
def Flags.set? (flags : Flags) (letter : Char) (on : Bool) : Option Flags :=
  match letter with
  | 'i' => some { flags with ignoreCase := on }
  | 'm' => some { flags with multiLine := on }
  | 's' => some { flags with dotAll := on }
  | 'U' => some { flags with swapGreed := on }
  | 'u' => if on then some flags else Option.none
  | 'R' => some { flags with crlf := on }
  | 'x' => some { flags with verbose := on }
  | _ => Option.none

/-- A part of a branch. Switches can not be repeated. -/
inductive Part where
  | expr (r : Regex)
  | switches

def Part.expr? : Part → Option Regex
  | .expr r => some r
  | .switches => none

structure Outer where
  flags : Flags
  group : Option Nat
  branches : List Regex
  parts : List Part

/-- What has been read: finished branches and parts of the innermost open group, last first. -/
structure Reader where
  flags : Flags
  branches : List Regex
  parts : List Part
  outer : List Outer
  groups : Nat
  names : List (List Char)

namespace Reader

def start : Reader := ⟨.none, [], [], [], 0, []⟩

def push (st : Reader) (r : Regex) : Reader := { st with parts := .expr r :: st.parts }

def branch (st : Reader) : Regex := sequence (st.parts.reverse.filterMap Part.expr?)

def body (st : Reader) : Regex := choice (st.branches.reverse ++ [st.branch])

def nextBranch (st : Reader) : Reader :=
  { st with branches := st.branch :: st.branches, parts := [] }

def openGroup (st : Reader) (flags : Flags) (group : Option Nat) : Reader :=
  { st with flags, branches := [], parts := [], outer := ⟨st.flags, group, st.branches, st.parts⟩ :: st.outer }

def openCapture (st : Reader) : Reader :=
  { st.openGroup st.flags (some (st.groups + 1)) with groups := st.groups + 1 }

def closeGroup (st : Reader) : Option Reader :=
  match st.outer with
  | [] => none
  | o :: outer =>
    -- The switches set inside end with the group.
    let inner := match o.group with
      | some index => .capture index st.body
      | none => st.body
    some { st with
      flags := o.flags, branches := o.branches, parts := .expr inner :: o.parts, outer }

def repeatLast (st : Reader) (least : Nat) (most : Option Nat) (lazily : Bool) : Option Reader :=
  match st.parts with
  | .expr r :: parts =>
    -- A question mark and the switch `U` undo each other.
    some { st with parts := .expr (rounds r least most (lazily == st.flags.swapGreed)) :: parts }
  | _ => none

def finish (st : Reader) : Option Regex :=
  if st.outer.isEmpty then some st.body else none

def literal (st : Reader) (c : Char) : Reader := st.push (.char (.single c) st.flags.ignoreCase)

def atom (st : Reader) : Atom → Reader
  | .one c => st.literal c
  | .several set => st.push (.char set st.flags.ignoreCase)
  | .place condition => st.push (.look condition)

def dot (flags : Flags) : CharSet :=
  if flags.dotAll then .compl .empty
  else if flags.crlf then .compl (.union (.single '\r') (.single '\n'))
  else .compl (.single '\n')

def lineStart (flags : Flags) : Look :=
  if flags.multiLine then .lineStart flags.crlf else .textStart

def lineEnd (flags : Flags) : Look :=
  if flags.multiLine then .lineEnd flags.crlf else .textEnd

end Reader

/-- Switches up to a colon or closing bracket: the new ones, which of the two ended them, and the text
behind it. No letter may stand twice, and a minus must come before a letter. -/
def readSwitches (flags : Flags) (seen : List Char) (on : Bool) :
    List Char → Option (Flags × Bool × List Char)
  | [] => none
  | c :: rest =>
    if c = ':' then if seen.head? = some '-' then none else some (flags, true, rest)
    else if c = ')' then
      if seen.head? = some '-' ∨ seen = [] then none else some (flags, false, rest)
    else if c ∈ seen then none
    else if c = '-' then readSwitches flags (c :: seen) false rest
    else match flags.set? c on with
      | some flags => readSwitches flags (c :: seen) on rest
      | none => none

def isLetter : Char → Bool :=
  ((BinaryProperty.ofName? "alphabetic").map BinaryProperty.test).getD fun _ => false

def isNameStart (c : Char) : Bool := c == '_' || isLetter c

def isNameRest (c : Char) : Bool :=
  c == '_' || c == '.' || c == '[' || c == ']' || isLetter c || category c matches .nd | .nl | .no

def readName (s : List Char) : Option (List Char × List Char) :=
  match s.dropWhile (· != '>') with
  | [] => none
  | _ :: after =>
    match s.takeWhile (· != '>') with
    | [] => none
    | c :: rest => if isNameStart c && rest.all isNameRest then some (c :: rest, after) else none

def openNamed (st : Reader) (s : List Char) : Option (Reader × List Char) := do
  let (name, after) ← readName s
  if name ∈ st.names then none
  else some ({ st.openCapture with names := name :: st.names }, after)

/-- Behind an opening parenthesis. Looking ahead or behind is not in the language. -/
def readGroup (st : Reader) (s : List Char) : Option (Reader × List Char) :=
  match skipBlanks st.flags.verbose s with
  | '?' :: 'P' :: '<' :: rest => openNamed st rest
  | '?' :: '<' :: '=' :: _ => none
  | '?' :: '<' :: '!' :: _ => none
  | '?' :: '<' :: rest => openNamed st rest
  | '?' :: rest =>
    match readSwitches st.flags [] true rest with
    | none => none
    -- Before a colon the switches hold in a group of their own, else in the rest of the open one.
    | some (flags, true, after) => some (st.openGroup flags none, after)
    | some (flags, false, after) =>
      some ({ st with flags, parts := .switches :: st.parts }, after)
  | s => some (st.openCapture, s)

def readLazy : List Char → Bool × List Char
  | '?' :: rest => (true, rest)
  | s => (false, s)

/-- Decimal digits with blanks around them; in verbose mode also between them. -/
def readCount (verbose : Bool) (s : List Char) : Option Nat × List Char :=
  let (digits, rest) := readDigits (s.length + 1) (s.dropWhile isBlank)
  let value := ofDigits digits
  (if digits.isEmpty ∨ value ≥ bound32 then none else some value,
    skipBlanks verbose (rest.dropWhile isBlank))
where
  readDigits : Nat → List Char → List Char × List Char
    | fuel + 1, c :: rest =>
      if c.isDigit then
        let (digits, after) := readDigits fuel (skipBlanks verbose rest)
        (c :: digits, after)
      else ([], c :: rest)
    | _, s => ([], s)

def readBounds (verbose : Bool) (s : List Char) :
    Option (Nat × Option Nat × Bool × List Char) := do
  let (least, rest) := readCount verbose (skipBlanks verbose s)
  let least ← least
  let (most, rest) ← match rest with
    | ',' :: rest =>
      match skipBlanks verbose rest with
      | '\x7d' :: rest => some (none, rest)
      | rest =>
        let (most, rest) := readCount verbose rest
        match most, rest with
        | some most, '\x7d' :: rest => some (some most, rest)
        | _, _ => none
    | '\x7d' :: rest => some (some least, rest)
    | _ => none
  let (lazily, rest) := readLazy (skipBlanks verbose rest)
  if most.any (· < least) then none else some (least, most, lazily, rest)

def readToken (st : Reader) (c : Char) (rest : List Char) : Option (Reader × List Char) :=
  match c with
  | '(' => readGroup st rest
  | ')' => st.closeGroup.map (·, rest)
  | '|' => some (st.nextBranch, rest)
  | '[' =>
    (readClass st.flags.verbose rest).map fun (set, after) =>
      (st.push (.char set st.flags.ignoreCase), after)
  | '?' =>
    let (lazily, rest) := readLazy rest
    (st.repeatLast 0 (some 1) lazily).map (·, rest)
  | '*' =>
    let (lazily, rest) := readLazy rest
    (st.repeatLast 0 none lazily).map (·, rest)
  | '+' =>
    let (lazily, rest) := readLazy rest
    (st.repeatLast 1 none lazily).map (·, rest)
  | '\x7b' => do
    let (least, most, lazily, rest) ← readBounds st.flags.verbose rest
    (st.repeatLast least most lazily).map (·, rest)
  | '\\' =>
    (readEscape st.flags.verbose rest).map fun (atom, after) => (st.atom atom, after)
  | '.' => some (st.push (.char (Reader.dot st.flags) false), rest)
  | '^' => some (st.push (.look (Reader.lineStart st.flags)), rest)
  | '$' => some (st.push (.look (Reader.lineEnd st.flags)), rest)
  -- A closing bracket or brace that closes nothing stands for itself.
  | c => some (st.literal c, rest)

/-- Reads to the end; every token takes at least one character, so the length of the text is enough
fuel. -/
def readTokens : Nat → Reader → List Char → Option Reader
  | 0, _, _ => none
  | fuel + 1, st, s =>
    match skipBlanks st.flags.verbose s with
    | [] => some st
    | c :: rest =>
      match readToken st c rest with
      | none => none
      | some (st, after) => readTokens fuel st after

def ofText? (s : List Char) : Option Regex :=
  (readTokens (s.length + 1) .start s).bind Reader.finish

end ContestTests.Regex
