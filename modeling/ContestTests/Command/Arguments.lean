import ContestTests.Text.Blank
import ContestTests.Text.Numeral

/-!
# Command lines

A command line is read argument by argument. Each level, that is the program itself and every command,
knows its own options and either commands of its own or places for plain arguments. Options that all
levels share may stand at any of them. Reading ends early at the first argument that is no use, and at
a request for help or for the version.
-/

namespace ContestTests.Command

open Text

inductive Takes where
  | nothing
  | text
  /-- Paths are not empty. -/
  | path
  | number
  | shell
deriving DecidableEq, Repr

structure Switch where
  long : String
  short : Option Char
  takes : Takes
deriving DecidableEq, Repr

inductive Level where
  | program
  | convert
  | detect
  | types
  | config
  | configGet
  | configSet
  | configList
  | configPath
  | configInit
  | completions
deriving DecidableEq, Repr

inductive Shell where
  | bash
  | zsh
  | fish
  | powerShell
  | elvish
deriving DecidableEq, Repr

namespace Shell

def all : List Shell := [.bash, .zsh, .fish, .powerShell, .elvish]

def name : Shell → String
  | .bash => "bash"
  | .zsh => "zsh"
  | .fish => "fish"
  | .powerShell => "power-shell"
  | .elvish => "elvish"

def ofName? (name : String) : Option Shell := all.find? (·.name == name)

end Shell

def readNumber? (s : String) : Option Nat := readBelow? bound64 s.toList

def Takes.accepts (value : String) : Takes → Bool
  | .nothing => false
  | .text => true
  | .path => !value.isEmpty
  | .number => (readNumber? value).isSome
  | .shell => (Shell.ofName? value).isSome

namespace Level

def commands : Level → List (String × Level)
  | program => [("convert", convert), ("detect", detect), ("types", types), ("config", config),
      ("completions", completions)]
  | config => [("get", configGet), ("set", configSet), ("list", configList), ("path", configPath),
      ("init", configInit)]
  | _ => []

def places : Level → List Takes
  | convert | detect => [.path, .path]
  | configGet => [.text]
  | configSet => [.text, .text]
  | completions => [.shell]
  | _ => []

def sharedSwitches : List Switch :=
  [⟨"verbose", some 'v', .nothing⟩, ⟨"quiet", some 'q', .nothing⟩, ⟨"base-dir", none, .path⟩,
    ⟨"help", some 'h', .nothing⟩]

def detectionSwitches : List Switch :=
  [⟨"dir", some 'd', .path⟩, ⟨"workdir", some 'w', .path⟩, ⟨"auto", some 'a', .nothing⟩,
    ⟨"infiles-only", some 'i', .nothing⟩, ⟨"type", some 't', .text⟩, ⟨"level", some 'l', .number⟩,
    ⟨"name", some 'n', .text⟩, ⟨"types-dir", none, .path⟩]

def ownSwitches : Level → List Switch
  | program => [⟨"version", some 'V', .nothing⟩]
  | convert => detectionSwitches ++
      [⟨"move", some 'm', .nothing⟩, ⟨"keep", some 'k', .nothing⟩, ⟨"output", some 'o', .text⟩]
  | detect => detectionSwitches ++ [⟨"json", none, .nothing⟩]
  | types => [⟨"type", some 't', .text⟩, ⟨"types-dir", none, .path⟩]
  | _ => []

def switches (level : Level) : List Switch := sharedSwitches ++ level.ownSwitches

def byLong? (level : Level) (name : List Char) : Option Switch :=
  level.switches.find? fun s => s.long.toList == name

def byShort? (level : Level) (letter : Char) : Option Switch :=
  level.switches.find? fun s => s.short == some letter

def leads (level : Level) : List String → Bool
  | [] => true
  | name :: names =>
    match level.commands.lookup name with
    | some next => next.leads names
    | none => !level.commands.isEmpty && name == "help" && names.isEmpty

end Level

inductive Stop where
  | misuse
  | help
  | version
deriving DecidableEq, Repr

/-- An option with its value, or with the empty text if it takes none, at the level where it stood. -/
structure Given where
  level : Level
  switch : Switch
  value : String
deriving DecidableEq, Repr

/-- What was read: the level reached, the options in reverse, and the plain arguments. -/
structure Reading where
  level : Level
  given : List Given
  plain : List String
deriving DecidableEq, Repr

namespace Reading

def start : Reading := ⟨.program, [], []⟩

def give (r : Reading) (switch : Switch) (value : String) : Except Stop Reading :=
  if r.given.any fun g => g.level == r.level && g.switch == switch then .error .misuse
  else .ok { r with given := ⟨r.level, switch, value⟩ :: r.given }

def giveValue (r : Reading) (switch : Switch) (value : String) : Except Stop Reading :=
  if switch.takes.accepts value then r.give switch value else .error .misuse

def giveFlag (r : Reading) (switch : Switch) : Except Stop Reading :=
  if switch.long = "help" then .error .help
  else if switch.long = "version" then .error .version
  else r.give switch ""

def place (r : Reading) (value : String) : Except Stop Reading :=
  match r.level.places[r.plain.length]? with
  | some takes =>
    if takes.accepts value then .ok { r with plain := r.plain ++ [value] } else .error .misuse
  | none => .error .misuse

abbrev Pending := Reading × Option Switch

def long (r : Reading) (s : List Char) : Except Stop Pending :=
  let name := s.takeWhile (· != '=')
  match r.level.byLong? name, s.drop name.length with
  | none, _ => .error .misuse
  | some switch, [] =>
    if switch.takes = .nothing then (r.giveFlag switch).map fun r => (r, none)
    else .ok (r, some switch)
  | some switch, _ :: value =>
    if switch.takes = .nothing then .error .misuse
    else (r.giveValue switch (String.ofList value)).map fun r => (r, none)

/-- Letters of options; what follows an option that takes a value is its value. -/
def short (r : Reading) : List Char → Except Stop Pending
  | [] => .ok (r, none)
  | letter :: rest =>
    match r.level.byShort? letter with
    | none => .error .misuse
    | some switch =>
      if switch.takes = .nothing then do
        let r ← r.giveFlag switch
        r.short rest
      else if rest.isEmpty then .ok (r, some switch)
      else
        -- `-lN` and `-l=N` say the same.
        let value := if rest.head? = some '=' then rest.tail else rest
        (r.giveValue switch (String.ofList value)).map fun r => (r, none)

def placeAll (r : Reading) : List String → Except Stop Reading
  | [] => .ok r
  | arg :: rest => do
    let r ← r.place arg
    r.placeAll rest

/-- Reads arguments, of which the first is the value of an option if one is pending. A value does not
start like an option. -/
def read (r : Reading) : Option Switch → List String → Except Stop Reading
  | none, [] => .ok r
  | some _, [] => .error .misuse
  | pending, arg :: rest =>
    match arg.toList, pending with
    -- Behind two hyphens everything is plain, commands too.
    | ['-', '-'], none => r.placeAll rest
    | '-' :: '-' :: name, none => do
      let (r, pending) ← r.long name
      r.read pending rest
    | '-' :: c :: letters, none => do
      let (r, pending) ← r.short (c :: letters)
      r.read pending rest
    -- A single hyphen is a value, and a plain argument.
    | '-' :: _ :: _, some _ => .error .misuse
    | _, some switch => do
      let r ← r.giveValue switch arg
      r.read none rest
    | _, none =>
      if r.level.commands.isEmpty then do
        let r ← r.place arg
        r.read none rest
      else match r.level.commands.lookup arg with
        | some level => { r with level := level }.read none rest
        | none => .error (if arg = "help" ∧ r.level.leads rest then .help else .misuse)

/-- The value of an option, from the deepest level where it stands. -/
def value? (r : Reading) (long : String) : Option String :=
  (r.given.find? (·.switch.long == long)).map (·.value)

def has (r : Reading) (long : String) : Bool := (r.value? long).isSome

end Reading

/-! ### What is asked for -/

structure Source where
  taskDir : String
  workDir : String
  /-- The best candidate is taken without asking. -/
  auto : Bool
  infilesOnly : Bool
  /-- Only definitions whose names start with this text count. -/
  initial : String
  level : Nat
  /-- The only name of tasks, if it is fixed. -/
  name : Option String
  typesDir : Option String
deriving DecidableEq, Repr

inductive Config where
  | get (key : String)
  | set (key value : String)
  | list
  | path
  | init
deriving DecidableEq, Repr

inductive Request where
  | convert (source : Source) (moving keep : Bool) (marksFile : Option String)
  | detect (source : Source) (json : Bool)
  | types (initial : String) (typesDir : Option String)
  | config (action : Config)
  | completions (shell : Shell)
  | help
deriving DecidableEq, Repr

structure Invocation where
  verbose : Bool
  quiet : Bool
  baseDir : Option String
  request : Request
deriving DecidableEq, Repr

namespace Reading

/-- The task directory is the current one unless it is given, and the work directory is the task
directory; neither may be given in two ways. -/
def source? (r : Reading) : Option Source :=
  if (r.has "dir" && r.plain.length ≥ 1) || (r.has "workdir" && r.plain.length ≥ 2) then none
  else
    let taskDir := ((r.value? "dir").or r.plain[0]?).getD "."
    some {
      taskDir
      workDir := ((r.value? "workdir").or r.plain[1]?).getD taskDir
      auto := r.has "auto"
      infilesOnly := r.has "infiles-only"
      initial := (r.value? "type").getD ""
      level := ((r.value? "level").bind readNumber?).getD 0
      name := r.value? "name"
      typesDir := r.value? "types-dir" }

def request? (r : Reading) : Option Request :=
  match r.level, r.plain with
  | .program, _ => some .help
  | .config, _ => none
  | .convert, _ => r.source?.map fun source =>
      .convert source (r.has "move") (r.has "keep") (r.value? "output")
  | .detect, _ => r.source?.map fun source => .detect source (r.has "json")
  | .types, _ => some (.types ((r.value? "type").getD "") (r.value? "types-dir"))
  | .configGet, [key] => some (.config (.get key))
  | .configSet, [key, value] => some (.config (.set key value))
  | .configList, _ => some (.config .list)
  | .configPath, _ => some (.config .path)
  | .configInit, _ => some (.config .init)
  | .completions, [name] => (Shell.ofName? name).map .completions
  | _, _ => none

end Reading

def Invocation.ofArguments (arguments : List String) : Except Stop Invocation := do
  let r ← Reading.start.read none arguments
  match r.request? with
  | some request => .ok ⟨r.has "verbose", r.has "quiet", r.value? "base-dir", request⟩
  | none => .error .misuse

end ContestTests.Command
