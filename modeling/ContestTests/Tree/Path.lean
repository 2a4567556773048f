import ContestTests.Text.Blank

/-!
# Paths

A path is text. Its components are what it means: repeated and trailing slashes and dots inside drop
out, a leading dot and every `..` stay. Joining works on the text, so that messages show paths as they
were given.
-/

namespace ContestTests.Path

open ContestTests.Text

inductive Component where
  | root
  | here
  | up
  | entry (name : String)
deriving DecidableEq, Repr

def Component.text : Component → String
  | .root => "/"
  | .here => "."
  | .up => ".."
  | .entry name => name

/-- The pieces of a path between its slashes, without the empty ones. -/
def pieces (path : String) : List (List Char) :=
  (splitOn '/' path.toList).filter fun piece => !piece.isEmpty

def isAbsolute (path : String) : Bool := path.toList.head? = some '/'

def Component.ofPiece (piece : List Char) : Component :=
  if piece = ['.'] then .here
  else if piece = ['.', '.'] then .up
  else .entry (String.ofList piece)

def components (path : String) : List Component :=
  let parts := (pieces path).map Component.ofPiece
  let inner := fun parts : List Component => parts.filter (· != .here)
  if isAbsolute path then .root :: inner parts
  else match parts with
    | .here :: rest => .here :: inner rest
    | parts => inner parts

def joinTexts (separator : String) (texts : List String) : String :=
  String.ofList (joinWith separator.toList (texts.map String.toList))

def normalize (path : String) : String :=
  joinTexts "/" ((components path).map Component.text)

def ofComponents : List Component → String
  | .root :: rest => "/" ++ joinTexts "/" (rest.map Component.text)
  | parts => joinTexts "/" (parts.map Component.text)

/-- A path below another one. An absolute path stays what it is. -/
def join (base path : String) : String :=
  if isAbsolute path then path
  else if base.isEmpty || base.toList.getLast? = some '/' then base ++ path
  else base ++ "/" ++ path

def fileName (path : String) : String :=
  match (components path).getLast? with
  | some (.entry name) => name
  | _ => ""

end ContestTests.Path
