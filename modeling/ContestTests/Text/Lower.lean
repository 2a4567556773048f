import ContestTests.Text.Case
import ContestTests.Text.Category

/-!
# Lower-casing texts

A text is lower-cased character by character, except that a capital sigma at the end of a word becomes
a final one: a cased character stands before it and none behind it, characters that case rules ignore
left out.
-/

namespace ContestTests.Text

/-- Characters that case rules look through: marks, modifiers and punctuation inside words. -/
def isCaseIgnorable (c : Char) : Bool :=
  category c matches .mn | .me | .cf | .lm | .sk ||
    c matches '\'' | '.' | ':' | '\u00b7' | '\u0387' | '\u055f' | '\u05f4' | '\u2018' | '\u2019' |
      '\u2024' | '\u2027' | '\ufe13' | '\ufe52' | '\ufe55' | '\uff07' | '\uff0e' | '\uff1a'

def isCased (c : Char) : Bool :=
  let n := c.toNat
  category c matches .lu | .ll | .lt || n == 0xAA || n == 0xBA || (0x2160 ≤ n && n ≤ 0x217F) ||
    (0x24B6 ≤ n && n ≤ 0x24E9) || (0x1F130 ≤ n && n ≤ 0x1F149) ||
    (0x1F150 ≤ n && n ≤ 0x1F169) || (0x1F170 ≤ n && n ≤ 0x1F189)

def meetsCased (s : List Char) : Bool := (s.dropWhile isCaseIgnorable).head?.any isCased

def lowerFrom (before : List Char) : List Char → List Char
  | [] => []
  | c :: rest =>
    (if c = 'Σ' then [if meetsCased before && !meetsCased rest then 'ς' else 'σ'] else lowerChar c) ++
      lowerFrom (c :: before) rest

def lower (s : List Char) : List Char := lowerFrom [] s

end ContestTests.Text
