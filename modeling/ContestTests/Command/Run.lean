import ContestTests.Command.Environment
import ContestTests.Command.Report
import ContestTests.Library

/-!
# Runs of the program

A run answers an invocation: it looks at a tree of files, perhaps changes it, asks for a choice if
several naming schemes fit, and prints. It ends with a failure, a cancellation or success, each with
an exit code. What was printed and changed before a failure stays.
-/

namespace ContestTests.Command

structure Progress where
  tree : Tree
  out : String
  err : String

abbrev Run := EStateM Failure Progress

inductive End where
  | done
  | cancelled
deriving DecidableEq, Repr

structure Voice where
  verbose : Bool
  quiet : Bool
deriving DecidableEq, Repr

namespace Voice

/-- Quiet wins over verbose. -/
def of (inv : Invocation) : Voice := ⟨inv.verbose && !inv.quiet, inv.quiet⟩

def silent : Voice := ⟨false, true⟩

end Voice

namespace Run

def print (text : String) : Run Unit := modify fun p => { p with out := p.out ++ text }

def say (line : String) : Run Unit := print (line ++ "\n")

def sayAll (lines : List String) : Run Unit := print (Report.unlines lines)

def complain (lines : List String) : Run Unit :=
  modify fun p => { p with err := p.err ++ Report.unlines lines }

def look (question : Tree → Except Failure α) : Run α := fun p =>
  match question p.tree with
  | .ok answer => .ok answer p
  | .error failure => .error failure p

def change (action : Action α) : Run α := fun p =>
  match action p.tree with
  | .ok a t => .ok a { p with tree := t }
  | .error fault t => .error (.io fault) { p with tree := t }

def ofExcept : Except Failure α → Run α
  | .ok a => pure a
  | .error failure => throw failure

/-! ### Settings -/

def setting (base key value : String) : Run Unit := do
  let settings ← look (Settings.load · base)
  let settings ← ofExcept (settings.set key value)
  change (settings.save base)
  say s!"Set: {key} = {value}"

def listSettings (base : String) : Run Unit := do
  let settings ← look (Settings.load · base)
  say ""
  sayAll (settings.list.map fun (key, value) => s!"{key} = {value}")
  if let some chars := settings.legacyChars then
    say s!"[WARN] {Settings.Key.nameChars.text} overridden by .cfg: [{chars}]"
  say ""

def config (base : String) : Config → Run Unit
  | .get key => do
    let settings ← look (Settings.load · base)
    match settings.get? key with
    | some value => say value
    | none => throw (.unknownSetting key)
  | .set key value => setting base key value
  | .list => listSettings base
  | .path => say (Settings.path base)
  | .init => do
    change (Settings.init base)
    say s!"Initialized: {Settings.path base}"

/-! ### Definitions -/

def types (base : String) (voice : Voice) (initial : String) (typesDir : Option String) : Run Unit := do
  let settings ← look (Settings.load · base)
  let dir := typesDir.getD (Settings.typesDir base)
  let contents ← look (Library.load · dir initial)
  sayAll ["", s!"Task types in {dir}:", ""]
  sayAll (contents.definitions.flatMap fun d =>
    Report.stateLine settings.context d :: if voice.quiet then [] else Report.detailLines d)
  sayAll (contents.failures.map Report.skippedLine)
  say ""

/-! ### Detection -/

def choose (env : Environment) (auto : Bool) (candidates : List Candidate) : Run Selection := do
  let outcome := Selection.resolve auto candidates (env.answers.map Text.trimmed)
  print (Report.dialogue outcome.exchanges)
  match outcome.result, env.inputFault with
  -- Answers end where the input ends or where it can not be read; the second is told.
  | .error .promptClosed, some fault => throw (.io fault)
  | result, _ => ofExcept result

def detection (env : Environment) (base : String) (settings : Settings) (source : Source)
    (auto : Bool) (voice : Voice) : Run (Option Candidate) := do
  let context := match source.name with
    | some name => settings.context.withFixedName name
    | none => settings.context
  let tasks ← look (Task.scan · source.taskDir source.level)
  if voice.verbose then
    sayAll (s!"Tasks in {source.taskDir}:" :: tasks.map Report.taskLine ++ [""])
  let contents ← look (Library.load · (source.typesDir.getD (Settings.typesDir base)) source.initial)
  if voice.verbose then
    sayAll (contents.failures.map Report.skippedLine)
  let result := Detection.detect (← get).tree context ⟨source.infilesOnly, source.workDir⟩
    contents.definitions tasks
  if voice.verbose then
    sayAll (result.rejected.map Report.rejectedLine ++ result.candidates.map Report.acceptedLine ++ [""])
  match ← choose env auto result.candidates with
  | .cancelled => return none
  | .selected candidate resolution =>
    if !voice.quiet then
      say (Report.resolutionLine candidate.name resolution)
    return some candidate

/-- A document is for other programs, so that nothing else is printed then and nothing is asked. -/
def detect (env : Environment) (base : String) (voice : Voice) (source : Source) (json : Bool) :
    Run End := do
  let settings ← look (Settings.load · base)
  let voice := if json then .silent else voice
  match ← detection env base settings source (source.auto || voice.quiet) voice with
  | none => return .cancelled
  | some candidate =>
    if json then say (Report.candidateJson candidate).render
    else if voice.quiet then say candidate.name
    else sayAll (Report.candidateLines candidate)
    return .done

/-! ### Conversion -/

def convertCandidate (voice : Voice) (options : Conversion.Options) (candidate : Candidate) :
    Run Unit := do
  if !voice.quiet then
    sayAll ["", "Converting..."]
  let outcome := Conversion.apply (← get).tree options candidate
  modify fun p => { p with tree := outcome.tree }
  if !voice.quiet then
    sayAll (outcome.transfers.map (Report.transferLine options.mode))
  -- The transfers before a failure are printed all the same.
  let report ← ofExcept outcome.result
  complain (report.cleanup.failures.map Report.cleanupFaultLine)
  if !voice.quiet then
    sayAll (Report.conversionLines options.workDir report)

def convert (env : Environment) (base : String) (voice : Voice) (source : Source)
    (moving keep : Bool) (marksFile : Option String) : Run End := do
  let settings ← look (Settings.load · base)
  match ← detection env base settings source (source.auto || voice.quiet) voice with
  | none => return .cancelled
  | some candidate =>
    convertCandidate voice {
      taskDir := source.taskDir
      workDir := source.workDir
      mode := if moving then .move else .copy
      clean := !keep
      infilesOnly := source.infilesOnly
      marksFile := marksFile.getD settings.marksFile } candidate
    return .done

end Run

def Invocation.toRun (inv : Invocation) (env : Environment) : Run End :=
  let base := env.base inv
  let voice := Voice.of inv
  match inv.request with
  | .convert source moving keep marksFile => Run.convert env base voice source moving keep marksFile
  | .detect source json => Run.detect env base voice source json
  | .types initial typesDir => do
    Run.types base voice initial typesDir
    return .done
  | .config action => do
    Run.config base action
    return .done
  | .completions shell => do
    Run.print (Report.completions shell)
    return .done
  | .help => do
    Run.print Report.help
    return .done

structure Outcome where
  exitCode : Nat
  out : String
  err : String
  tree : Tree
  /-- It ended because the last question had no answer. -/
  unanswered : Bool

def Invocation.run (inv : Invocation) (env : Environment) (t : Tree) : Outcome :=
  match inv.toRun env ⟨t, "", ""⟩ with
  | .ok .done p => ⟨0, p.out, p.err, p.tree, false⟩
  | .ok .cancelled p =>
    ⟨cancelledExitCode, p.out ++ if inv.quiet then "" else "Received exit command\n", p.err, p.tree,
      false⟩
  | .error failure p =>
    ⟨failure.exitCode, p.out, p.err ++ s!"[ERROR] {failure.message}\n", p.tree,
      failure == .promptClosed⟩

def Stop.outcome (t : Tree) : Stop → Outcome
  | .misuse => ⟨2, "", Report.misuse, t, false⟩
  | .help => ⟨0, Report.help, "", t, false⟩
  | .version => ⟨0, Report.version, "", t, false⟩

def run (arguments : List String) (env : Environment) (t : Tree) : Outcome :=
  match Invocation.ofArguments arguments with
  | .ok inv => inv.run env t
  | .error stop => stop.outcome t

end ContestTests.Command
