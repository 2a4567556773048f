/-!
# TOML values

A document is a table. A table remembers how it came about, because that decides what may still be added
to it: a table written as a value is closed, and one with a header takes no dotted keys from outside.
-/

namespace ContestTests.Toml

inductive Form where
  /-- Written in braces. -/
  | inline
  /-- Opened by its own header. -/
  | header
  /-- On the way to a table with a header. -/
  | implied
  /-- On the way to a dotted key. -/
  | dotted
deriving DecidableEq, Repr

inductive Value where
  | string (text : String)
  | integer (n : Int)
  | float (text : String)
  | boolean (b : Bool)
  /-- A date, a time or both. -/
  | moment (text : String)
  | array (items : List Value)
  | table (form : Form) (entries : List (String × Value))
  /-- Tables under one header in double brackets, the last one first. -/
  | tables (elements : List Value)

abbrev Entries := List (String × Value)

namespace Entries

def replace (entries : Entries) (key : String) (value : Value) : Entries :=
  entries.map fun e => if e.1 == key then (key, value) else e

/-- Adds a value under a dotted key; no key may be given twice, and the tables on the way must not have
been opened in another form. -/
def assign (path : List String) (key : String) (value : Value) (entries : Entries) :
    Option Entries :=
  match path with
  | [] => if (entries.lookup key).isSome then none else some (entries ++ [(key, value)])
  | first :: path =>
    match entries.lookup first with
    | none => (assign path key value []).map fun inner => entries ++ [(first, .table .dotted inner)]
    | some (.table .dotted inner) =>
      (assign path key value inner).map fun inner => entries.replace first (.table .dotted inner)
    | some (.table .implied inner) =>
      if path.isEmpty then none
      else (assign path key value inner).map fun inner =>
        entries.replace first (.table .implied inner)
    | some (.tables (.table form inner :: earlier)) =>
      if path.isEmpty then none
      else (assign path key value inner).map fun inner =>
        entries.replace first (.tables (.table form inner :: earlier))
    | some _ => none

/-- Goes down to the table at a path and changes it. Missing tables are implied; of several tables under
a header the last is meant. -/
def changeAt (change : Entries → Option Entries) (path : List String) (entries : Entries) :
    Option Entries :=
  match path with
  | [] => change entries
  | first :: path =>
    match entries.lookup first with
    | none => (changeAt change path []).map fun inner =>
        entries ++ [(first, .table .implied inner)]
    | some (.table .inline _) => none
    | some (.table form inner) =>
      (changeAt change path inner).map fun inner => entries.replace first (.table form inner)
    | some (.tables (.table form inner :: earlier)) =>
      (changeAt change path inner).map fun inner =>
        entries.replace first (.tables (.table form inner :: earlier))
    | some _ => none

/-- Opens a table under a header; an implied one may still get its header. -/
def openTable (key : String) (entries : Entries) : Option Entries :=
  match entries.lookup key with
  | none => some (entries ++ [(key, .table .header [])])
  | some (.table .implied inner) => some (entries.replace key (.table .header inner))
  | some _ => none

def openElement (key : String) (entries : Entries) : Option Entries :=
  match entries.lookup key with
  | none => some (entries ++ [(key, .tables [.table .header []])])
  | some (.tables elements) => some (entries.replace key (.tables (.table .header [] :: elements)))
  | some _ => none

end Entries

end ContestTests.Toml
