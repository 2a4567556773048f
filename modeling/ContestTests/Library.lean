import ContestTests.Glob
import ContestTests.Task

/-!
# Libraries of definitions

A library is a directory with one file for each definition, which has the name of its file.
-/

namespace ContestTests.Library

def pattern? (initial : String) : Option Glob := Glob.ofText? (Glob.escape initial.toList ++ ['*'])

def discover (t : Tree) (directory initial : String) : Except Failure (List String) :=
  match pattern? initial with
  | none => .error (.typeNotRecognized initial directory)
  | some pattern =>
    match t.list directory with
    | .error .notFound => .error (.typeNotRecognized initial directory)
    | .error fault => .error (.io fault)
    | .ok names =>
      let found := names.filter fun name => t.isFile (Path.join directory name) && pattern.accepts name
      if found.isEmpty then .error (.typeNotRecognized initial directory)
      else .ok ((Task.sortTexts found).map (Path.join directory))

def loadFile (t : Tree) (path : String) : Except Failure Definition :=
  match t.readText path with
  | .error fault => .error (.io fault)
  | .ok content =>
    match Definition.ofText (Path.fileName path) content with
    | .error error => .error (.definition error)
    | .ok definition => .ok definition

structure Contents where
  definitions : List Definition
  failures : List (String × Failure)

def Contents.ofResults : List (String × Except Failure Definition) → Contents
  | [] => ⟨[], []⟩
  | (_, .ok definition) :: more =>
    let rest := ofResults more
    { rest with definitions := definition :: rest.definitions }
  | (path, .error failure) :: more =>
    let rest := ofResults more
    { rest with failures := (path, failure) :: rest.failures }

def load (t : Tree) (directory initial : String) : Except Failure Contents := do
  let paths ← discover t directory initial
  .ok (.ofResults (paths.map fun path => (path, loadFile t path)))

end ContestTests.Library
