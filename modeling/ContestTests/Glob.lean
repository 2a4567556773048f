/-!
# Patterns for names of files

A pattern is read against a whole name. A question mark stands for any character and a star for any text;
two stars, which must be all there is between slashes, stand for any directories; brackets stand for
one of the characters between them, or behind an exclamation mark for any other one. Everything else stands for
itself. ASCII letters are compared without case.
-/

namespace ContestTests

namespace Glob

inductive Item where
  | one (c : Char)
  | range (first last : Char)
deriving DecidableEq, Repr

inductive Token where
  | char (c : Char)
  | anyChar
  | within (items : List Item)
  | except (items : List Item)
  | anyText
  /-- Nothing, or whatever ends in a slash. -/
  | anyDirectories
deriving DecidableEq, Repr

end Glob

structure Glob where
  tokens : List Glob.Token
deriving DecidableEq, Repr

namespace Glob

/-! ### Reading patterns -/

def itemsOf : List Char → List Item
  | first :: '-' :: last :: rest => .range first last :: itemsOf rest
  | c :: rest => .one c :: itemsOf rest
  | [] => []

/-- The characters up to a closing bracket, of which the first may be one itself, and the text behind it. -/
def cutAtBracket (first : Char) (rest : List Char) : Option (List Char × List Char) :=
  match rest.dropWhile (· != ']') with
  | [] => none
  | _ :: behind => some (first :: rest.takeWhile (· != ']'), behind)

def readBrackets : List Char → Option (Token × List Char)
  | '!' :: c :: rest => (cutAtBracket c rest).map fun (inside, behind) => (.except (itemsOf inside), behind)
  | ['!'] | [] => none
  | c :: rest => (cutAtBracket c rest).map fun (inside, behind) => (.within (itemsOf inside), behind)

def readStars (fresh : Bool) : List Char → Option (Token × List Char)
  | '*' :: '/' :: rest => if fresh then some (.anyDirectories, rest) else none
  | ['*'] => if fresh then some (.anyDirectories, []) else none
  | '*' :: _ => none
  | rest => some (.anyText, rest)

/-- One token; `fresh` where a text between slashes starts. -/
def readToken (fresh : Bool) : List Char → Option (Token × List Char)
  | [] => none
  | '?' :: rest => some (.anyChar, rest)
  | '*' :: rest => readStars fresh rest
  | '[' :: rest => readBrackets rest
  | c :: rest => some (.char c, rest)

def Token.leavesFresh : Token → Bool
  | .char c => c == '/'
  | .anyDirectories => true
  | _ => false

/-- Takes one more token; directories twice in a row are not kept twice behind something else. -/
def push (tokens : List Token) (token : Token) : List Token :=
  if token = .anyDirectories ∧ 1 < tokens.length ∧ tokens.getLast? = some .anyDirectories then tokens
  else tokens ++ [token]

/-- Reads the tokens of a text behind those that have been read; every token takes at least one character, so
that the length of the text is enough fuel. -/
def readTokens : Nat → Bool → List Token → List Char → Option (List Token)
  | _, _, tokens, [] => some tokens
  | 0, _, _, _ => none
  | fuel + 1, fresh, tokens, s =>
    match readToken fresh s with
    | none => none
    | some (token, rest) => readTokens fuel token.leavesFresh (push tokens token) rest

def ofText? (s : List Char) : Option Glob := (readTokens s.length true [] s).map Glob.mk

def isSpecial (c : Char) : Bool := c matches '?' | '*' | '[' | ']'

def escape (s : List Char) : List Char := s.flatMap fun c => if isSpecial c then ['[', c, ']'] else [c]

/-! ### Matching names -/

def Item.takes (c : Char) : Item → Bool
  | .one d => c.toLower == d.toLower
  | .range first last => (first ≤ c && c ≤ last) ||
      -- Only a range between letters ignores case.
      (first.isAlpha && last.isAlpha && first.toLower ≤ c.toLower && c.toLower ≤ last.toLower)

def Token.takes (c : Char) : Token → Bool
  | .char d => c.toLower == d.toLower
  | .anyChar => true
  | .within items => items.any (·.takes c)
  | .except items => !items.any (·.takes c)
  | .anyText | .anyDirectories => false

def suffixes : List Char → List (List Char)
  | [] => [[]]
  | c :: rest => (c :: rest) :: suffixes rest

def behindSlashes : List Char → List (List Char)
  | [] => []
  | c :: rest => if c = '/' then rest :: behindSlashes rest else behindSlashes rest

def tokensAccept : List Token → List Char → Bool
  | [], name => name.isEmpty
  | .anyText :: tokens, name => (suffixes name).any fun rest => tokensAccept tokens rest
  | .anyDirectories :: tokens, name => (name :: behindSlashes name).any fun rest => tokensAccept tokens rest
  | _ :: _, [] => false
  | token :: tokens, c :: rest => token.takes c && tokensAccept tokens rest

def accepts (pattern : Glob) (name : String) : Bool := tokensAccept pattern.tokens name.toList

end Glob

end ContestTests
