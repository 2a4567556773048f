/-!
# Blank characters, trimming and lines

White space is Unicode's `White_Space` property. Lines end at a line feed, which takes one carriage
return before it along; a text that ends in a line feed has no empty last line.
-/

namespace ContestTests.Text

/-- The characters of Unicode's `White_Space` property. -/
def isBlank (c : Char) : Bool :=
  let n := c.toNat
  (9 ≤ n && n ≤ 13) || n == 0x20 || n == 0x85 || n == 0xA0 || n == 0x1680 ||
    (0x2000 ≤ n && n ≤ 0x200A) || n == 0x2028 || n == 0x2029 || n == 0x202F || n == 0x205F ||
    n == 0x3000

def trimStart (s : List Char) : List Char := s.dropWhile isBlank

def trimEnd (s : List Char) : List Char := (s.reverse.dropWhile isBlank).reverse

def trim (s : List Char) : List Char := trimEnd (trimStart s)

def trimmed (s : String) : String := String.ofList (trim s.toList)

def splitOn (separator : Char) : List Char → List (List Char)
  | [] => [[]]
  | c :: rest =>
    if c = separator then [] :: splitOn separator rest
    else match splitOn separator rest with
      | [] => [[c]]
      | piece :: pieces => (c :: piece) :: pieces

def joinWith (separator : List Char) : List (List Char) → List Char
  | [] => []
  | [piece] => piece
  | piece :: pieces => piece ++ separator ++ joinWith separator pieces

theorem splitOn_ne_nil (separator : Char) (s : List Char) : splitOn separator s ≠ [] := by
  cases s with
  | nil => simp [splitOn]
  | cons c rest =>
    rw [splitOn]
    split
    · simp
    · split <;> simp

theorem joinWith_splitOn (separator : Char) (s : List Char) :
    joinWith [separator] (splitOn separator s) = s := by
  induction s with
  | nil => rfl
  | cons c rest ih =>
    have more := splitOn_ne_nil separator rest
    simp only [splitOn]
    split
    · next same =>
      cases pieces : splitOn separator rest with
      | nil => exact absurd pieces more
      | cons piece pieces' =>
        rw [pieces] at ih
        simp [joinWith, ih, same]
    · cases pieces : splitOn separator rest with
      | nil => exact absurd pieces more
      | cons piece pieces' =>
        rw [pieces] at ih
        cases pieces' with
        | nil => simpa [joinWith] using ih
        | cons second others => simpa [joinWith] using ih

def dropReturn (line : List Char) : List Char :=
  if line.getLast? = some '\r' then line.dropLast else line

/-- What the pieces between line feeds stand for: all but the last were ended by one. -/
def endLines : List (List Char) → List (List Char)
  | [] => []
  | [last] => if last.isEmpty then [] else [last]
  | line :: more => dropReturn line :: endLines more

def lines (s : List Char) : List (List Char) := endLines (splitOn '\n' s)

def splitAtBlank : List Char → Option (List Char × List Char)
  | [] => none
  | c :: rest =>
    if isBlank c then some ([], rest)
    else (splitAtBlank rest).map fun (word, after) => (c :: word, after)

def sameIgnoringAsciiCase (a b : List Char) : Bool :=
  a.map Char.toLower == b.map Char.toLower

end ContestTests.Text
