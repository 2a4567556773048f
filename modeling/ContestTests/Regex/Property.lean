import ContestTests.Regex.CharSet
import ContestTests.Text.BinaryProperty
import ContestTests.Text.Script

/-!
# Named sets of characters

The short classes `\d`, `\s` and `\w`, the ASCII classes `[:name:]`, and what `\p` names:
binary properties, general categories, alone or in groups, and scripts. A `\p` that names an age or a
boundary of text segmentation is not in the language.
-/

namespace ContestTests.Regex

open ContestTests.Text

def shortClass? (c : Char) : Option CharSet :=
  match c with
  | 'd' => some (.property isDecimal)
  | 's' => some (.property isBlank)
  | 'w' => some (.property isWord)
  | 'D' => some (.compl (.property isDecimal))
  | 'S' => some (.compl (.property isBlank))
  | 'W' => some (.compl (.property isWord))
  | _ => none

def asciiClass? (name : String) : Option CharSet :=
  CharSet.ofRanges <$> match name with
  | "alnum" => some [('0', '9'), ('A', 'Z'), ('a', 'z')]
  | "alpha" => some [('A', 'Z'), ('a', 'z')]
  | "ascii" => some [('\x00', '\x7f')]
  | "blank" => some [('\t', '\t'), (' ', ' ')]
  | "cntrl" => some [('\x00', '\x1f'), ('\x7f', '\x7f')]
  | "digit" => some [('0', '9')]
  | "graph" => some [('!', '~')]
  | "lower" => some [('a', 'z')]
  | "print" => some [(' ', '~')]
  | "punct" => some [('!', '/'), (':', '@'), ('[', '`'), ('\x7b', '~')]
  | "space" => some [('\t', '\r'), (' ', ' ')]
  | "upper" => some [('A', 'Z')]
  | "word" => some [('0', '9'), ('A', 'Z'), ('_', '_'), ('a', 'z')]
  | "xdigit" => some [('0', '9'), ('A', 'F'), ('a', 'f')]
  | _ => none

def categories? (name : String) : Option (Category → Bool) :=
  match name with
  | "l" | "letter" => some (·.isLetter)
  | "lc" | "casedletter" => some (· matches .lu | .ll | .lt)
  | "lu" | "uppercaseletter" => some (· == .lu)
  | "ll" | "lowercaseletter" => some (· == .ll)
  | "lt" | "titlecaseletter" => some (· == .lt)
  | "lm" | "modifierletter" => some (· == .lm)
  | "lo" | "otherletter" => some (· == .lo)
  | "m" | "mark" | "combiningmark" => some (·.isMark)
  | "mn" | "nonspacingmark" => some (· == .mn)
  | "mc" | "spacingmark" => some (· == .mc)
  | "me" | "enclosingmark" => some (· == .me)
  | "n" | "number" => some (· matches .nd | .nl | .no)
  | "nd" | "decimalnumber" | "digit" => some (· == .nd)
  | "nl" | "letternumber" => some (· == .nl)
  | "no" | "othernumber" => some (· == .no)
  | "p" | "punctuation" | "punct" => some (· matches .pc | .pd | .ps | .pe | .pi | .pf | .po)
  | "pc" | "connectorpunctuation" => some (· == .pc)
  | "pd" | "dashpunctuation" => some (· == .pd)
  | "ps" | "openpunctuation" => some (· == .ps)
  | "pe" | "closepunctuation" => some (· == .pe)
  | "pi" | "initialpunctuation" => some (· == .pi)
  | "pf" | "finalpunctuation" => some (· == .pf)
  | "po" | "otherpunctuation" => some (· == .po)
  | "s" | "symbol" => some (· matches .sm | .sc | .sk | .so)
  | "sm" | "mathsymbol" => some (· == .sm)
  | "sc" | "currencysymbol" => some (· == .sc)
  | "sk" | "modifiersymbol" => some (· == .sk)
  | "so" | "othersymbol" => some (· == .so)
  | "z" | "separator" => some (· matches .zs | .zl | .zp)
  | "zs" | "spaceseparator" => some (· == .zs)
  | "zl" | "lineseparator" => some (· == .zl)
  | "zp" | "paragraphseparator" => some (· == .zp)
  | "c" | "other" => some (· matches .cc | .cf | .cs | .co | .cn)
  | "cc" | "control" | "cntrl" => some (· == .cc)
  | "cf" | "format" => some (· == .cf)
  | "co" | "privateuse" => some (· == .co)
  | "cn" | "unassigned" => some (· == .cn)
  | "any" => some fun _ => true
  | "assigned" => some (· != .cn)
  | _ => none

/-- Names compare without case, blanks, underscores, hyphens and a leading `is`; but `isc` is not the
name `c`. -/
def normalName (name : List Char) : String :=
  let (stripped, rest) := match name with
    | i :: s :: rest =>
      if i.toLower = 'i' ∧ s.toLower = 's' then (true, rest) else (false, name)
    | name => (false, name)
  let kept := (rest.filter fun c => c.toNat < 0x80 && !(c matches ' ' | '_' | '-')).map Char.toLower
  if stripped && kept == ['c'] then "isc" else String.ofList kept

def categorySet? (name : String) : Option CharSet :=
  if name = "ascii" then some (.property (·.toNat < 0x80))
  else (categories? name).map fun holds => .property fun c => holds (category c)

def scriptSet? (name : String) : Option CharSet :=
  (Script.ofName? name).map fun script => .property fun c => Script.ofChar c == script

def property? (name : List Char) : Option CharSet :=
  let name := normalName name
  match BinaryProperty.ofName? name with
  | some p => some (.property p.test)
  | none => (categorySet? name).or (scriptSet? name)

def propertyValue? (name value : List Char) : Option CharSet :=
  let value := normalName value
  match normalName name with
  | "gc" | "generalcategory" => categorySet? value
  | "sc" | "script" => scriptSet? value
  | "scx" | "scriptextensions" =>
    (Script.ofName? value).map fun script => .property fun c => (Script.allOfChar c).contains script
  | _ => none

end ContestTests.Regex
