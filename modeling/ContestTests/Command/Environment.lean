import ContestTests.Command.Arguments
import ContestTests.Settings

/-!
# What surrounds a run

The base directory comes from the command line, or else from the environment, or else it lies in the
home directory. The input is read line by line; a last line need not be ended, and a line that is no
text can not be read.
-/

namespace ContestTests.Command

structure Environment where
  /-- The base directory, unless the command line names one. -/
  baseDir : Option String
  home : Option String
  /-- The lines that can be read, in their order. -/
  answers : List String
  /-- What happens when a line behind them is read; otherwise the input just ends. -/
  inputFault : Option Fault

def inputLines : List UInt8 → List (List UInt8)
  | [] => []
  | b :: rest =>
    if b = '\n'.toUInt8 then [] :: inputLines rest
    else match inputLines rest with
      | [] => [[b]]
      | line :: lines => (b :: line) :: lines

/-- The texts up to the first line that is none, and the fault of reading that line. -/
def decodeLines : List (List UInt8) → List String × Option Fault
  | [] => ([], none)
  | line :: lines =>
    match String.fromUTF8? ⟨line.toArray⟩ with
    | none => ([], some .notUtf8)
    | some text =>
      let (texts, fault) := decodeLines lines
      (text :: texts, fault)

namespace Environment

def ofInput (baseDir home : Option String) (input : ByteArray) : Environment :=
  let (answers, inputFault) := decodeLines (inputLines input.toList)
  ⟨baseDir, home, answers, inputFault⟩

def defaultBase : String := ".taskconv"

def base (env : Environment) (inv : Invocation) : String :=
  match inv.baseDir.or env.baseDir with
  | some base => base
  | none => (env.home.map (Path.join · defaultBase)).getD defaultBase

end Environment

/-- The paths at and below which a run looks at files or changes them. -/
def Invocation.paths (inv : Invocation) (env : Environment) : List String :=
  let base := env.base inv
  base :: match inv.request with
    | .convert source .. | .detect source _ =>
      [source.taskDir, source.workDir, source.typesDir.getD (Settings.typesDir base)]
    | .types _ typesDir => [typesDir.getD (Settings.typesDir base)]
    | .config _ | .completions _ | .help => []

end ContestTests.Command
