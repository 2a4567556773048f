import ContestTests.Command.Run
import ContestTests.Proofs.Conversion.Interruption
import ContestTests.Proofs.Detection.Ranking
import ContestTests.Proofs.Selection.Dialogue

/-!
# What exit codes tell

Up to the first deed of a conversion a run only looks at the tree. Whatever refuses to go on and whatever
the operator cancels comes before that, so that the exit codes for these say that nothing was touched.
Success says that all was done, and the code for a transfer that failed that all before it was.
-/

namespace ContestTests

variable {t : Tree} {failure : Failure}

-- ---------------------------------------------------------------------------
-- Failures
-- ---------------------------------------------------------------------------

theorem exitCode_walk {depth : Nat} {key : Key} {path : String} (h : .error failure ∈ Task.walk t depth key path) :
    failure.exitCode = 1 := by
  induction depth generalizing key path with
  | zero => simp [Task.walk] at h
  | succ depth ih =>
    rw [Task.walk, List.mem_cons] at h
    have hmet := h.resolve_left (by simp)
    split at hmet
    · split at hmet
      · cases List.mem_singleton.mp hmet
        rfl
      · obtain ⟨name, -, hmet⟩ := List.mem_flatMap.mp hmet
        obtain ⟨met, hmet, hfailed⟩ := List.mem_map.mp hmet
        cases met with
        | ok way => cases hfailed
        | error failure' =>
          cases hfailed
          exact ih hmet
    · cases hmet

theorem exitCode_listFiles {path : String} (h : Task.listFiles t path = .error failure) : failure.exitCode = 1 := by
  unfold Task.listFiles at h
  split at h
  · cases h
    rfl
  · rcases bind_eq_error.mp h with h | ⟨ways, -, h⟩
    · obtain ⟨met, hmet, he⟩ := exists_of_mapM_eq_error h
      cases he
      exact exitCode_walk hmet
    · cases h

theorem exitCode_scan {root : String} {level : Nat} (h : Task.scan t root level = .error failure) :
    failure.exitCode = 1 ∨ failure.exitCode = 3 := by
  unfold Task.scan at h
  split at h
  · cases h
    exact .inr rfl
  · rcases bind_eq_error.mp h with h | ⟨tasks, -, h⟩
    · rcases Task.collect_eq_error h with hmet | ⟨way, -, -, hlist⟩
      · exact .inl (exitCode_walk hmet)
      · exact .inl (exitCode_listFiles hlist)
    · split at h
      · cases h
        exact .inr rfl
      · cases h

theorem exitCode_library {directory initial : String} (h : Library.load t directory initial = .error failure) :
    failure.exitCode = 1 ∨ failure.exitCode = 4 := by
  unfold Library.load at h
  cases hpaths : Library.discover t directory initial with
  | ok paths =>
    rw [hpaths] at h
    cases h
  | error failure' =>
    rw [hpaths] at h
    cases h
    unfold Library.discover at hpaths
    split at hpaths
    · cases hpaths
      exact .inr rfl
    · split at hpaths
      · cases hpaths
        exact .inr rfl
      · cases hpaths
        exact .inl rfl
      · dsimp only at hpaths
        split at hpaths <;> cases hpaths
        exact .inr rfl

theorem exitCode_settings {base : String} (h : Settings.load t base = .error failure) : failure.exitCode = 1 := by
  unfold Settings.load at h
  cases hfile : Settings.readFile t base with
  | error failure' =>
    rw [hfile] at h
    cases h
    unfold Settings.readFile at hfile
    split at hfile
    · split at hfile
      · cases hfile
        rfl
      · split at hfile <;> cases hfile
        rfl
    · cases hfile
  | ok s =>
    rw [hfile] at h
    cases hlegacy : Settings.readLegacy t base with
    | ok chars =>
      rw [hlegacy] at h
      cases h
    | error failure' =>
      rw [hlegacy] at h
      cases h
      unfold Settings.readLegacy at hlegacy
      split at hlegacy
      · split at hlegacy <;> cases hlegacy
        rfl
      · cases hlegacy

theorem exitCode_check {o : Conversion.Options} {c : Candidate} (h : Conversion.check t o c = .error failure) :
    failure.exitCode = 5 := by
  unfold Conversion.check at h
  split at h
  · cases h
    rfl
  · split at h <;> cases h
    rfl

namespace Selection

variable {auto : Bool} {candidates : List Candidate} {answers : List String} {c : Candidate} {how : Resolution}

theorem exitCode_resolve (h : (resolve auto candidates answers).result = .error failure) :
    failure.exitCode = 1 ∨ failure.exitCode = 2 := by
  unfold resolve at h
  split at h
  · cases h
    exact .inr rfl
  · cases h
  · split at h
    · cases h
    · dsimp only at h
      split at h <;> cases h
      exact .inl rfl

theorem mem_of_resolve (h : (resolve auto candidates answers).result = .ok (.selected c how)) : c ∈ candidates := by
  unfold resolve at h
  split at h
  · cases h
  · cases h
    exact List.mem_singleton_self c
  · rename_i best more _
    split at h
    · cases h
      exact List.mem_cons_self
    · dsimp only at h
      split at h <;> cases h
      rename_i index _
      rw [List.getD_eq_getElem?_getD]
      cases hget : (best :: more)[index]? with
      | none => exact List.mem_cons_self
      | some found => exact List.mem_of_getElem? hget

end Selection

namespace Command

namespace Run

variable {w : Run α} {next : α → Run β} {p p' : Progress}

-- ---------------------------------------------------------------------------
-- Runs that only look
-- ---------------------------------------------------------------------------

/-- However the run ends, the tree is what it was; if it fails, then with one of these codes. -/
def Looks (codes : List Nat) (w : Run α) : Prop :=
  ∀ p, (∀ a p', w p = .ok a p' → p'.tree = p.tree) ∧
    ∀ failure p', w p = .error failure p' → p'.tree = p.tree ∧ failure.exitCode ∈ codes

variable {codes codes' : List Nat}

theorem Looks.bind (h : Looks codes w) (h' : ∀ a, Looks codes (next a)) : Looks codes (w >>= next) := by
  intro p
  refine ⟨fun b p' hok => ?_, fun failure p' herror => ?_⟩
  · obtain ⟨a, p₁, hfirst, hrest⟩ := stateBind_eq_ok.mp hok
    exact ((h' a p₁).1 b p' hrest).trans ((h p).1 a p₁ hfirst)
  · rcases stateBind_eq_error.mp herror with hfirst | ⟨a, p₁, hfirst, hrest⟩
    · exact (h p).2 failure p' hfirst
    · obtain ⟨htree, hcode⟩ := (h' a p₁).2 failure p' hrest
      exact ⟨htree.trans ((h p).1 a p₁ hfirst), hcode⟩

theorem Looks.mono (h : Looks codes w) (hcodes : codes ⊆ codes') : Looks codes' w := fun p =>
  ⟨(h p).1, fun failure p' herror => ((h p).2 failure p' herror).imp_right fun hcode => hcodes hcode⟩

theorem looks_pure (a : α) : Looks codes (pure a) := by
  intro p
  refine ⟨fun b p' hok => ?_, fun failure p' herror => (by cases herror)⟩
  cases hok
  rfl

theorem looks_get : Looks codes (get : Run Progress) := by
  intro p
  refine ⟨fun b p' hok => ?_, fun failure p' herror => (by cases herror)⟩
  cases hok
  rfl

theorem looks_modify {f : Progress → Progress} (hf : ∀ p, (f p).tree = p.tree) : Looks codes (modify f) := by
  intro p
  refine ⟨fun b p' hok => ?_, fun failure p' herror => (by cases herror)⟩
  cases hok
  exact hf p

theorem looks_print (text : String) : Looks codes (print text) := looks_modify fun _ => rfl

theorem looks_say (line : String) : Looks codes (say line) := looks_print _

theorem looks_sayAll (lines : List String) : Looks codes (sayAll lines) := looks_print _

theorem looks_complain (lines : List String) : Looks codes (complain lines) := looks_modify fun _ => rfl

theorem Looks.optional {b : Bool} {w : Run Unit} {next : Unit → Run β} (h : Looks codes w)
    (h' : Looks codes (next ())) : Looks codes (if b then w >>= next else next ()) := by
  cases b with
  | true => exact h.bind fun _ => h'
  | false => exact h'

theorem Looks.ends (h : Looks [] w) (p : Progress) : ∃ a p', p'.tree = p.tree ∧ w p = .ok a p' := by
  cases hw : w p with
  | ok a p' => exact ⟨a, p', (h p).1 a p' hw, rfl⟩
  | error failure p' => cases ((h p).2 failure p' hw).2

theorem Looks.behind {r : EStateM.Result Failure Progress β} (h : Looks [] w) (hend : (w >>= next) p = r) :
    ∃ a p₁, p₁.tree = p.tree ∧ next a p₁ = r := by
  obtain ⟨a, p₁, htree, hfirst⟩ := h.ends p
  exact ⟨a, p₁, htree, (stateBind_of_ok hfirst).symm.trans hend⟩

theorem Looks.behind_optional {b : Bool} {w : Run Unit} {next : Unit → Run β}
    {r : EStateM.Result Failure Progress β} (h : Looks [] w) (hend : (if b then w >>= next else next ()) p = r) :
    ∃ p₁, p₁.tree = p.tree ∧ next () p₁ = r := by
  cases b with
  | true =>
    obtain ⟨⟨⟩, hrest⟩ := h.behind hend
    exact hrest
  | false => exact ⟨p, rfl, hend⟩

theorem look_eq_ok {question : Tree → Except Failure α} {a : α} :
    look question p = .ok a p' ↔ question p.tree = .ok a ∧ p' = p := by
  unfold look
  cases question p.tree with
  | ok a' => simp [eq_comm]
  | error failure => simp

theorem look_eq_error {question : Tree → Except Failure α} :
    look question p = .error failure p' ↔ question p.tree = .error failure ∧ p' = p := by
  unfold look
  cases question p.tree with
  | ok a' => simp
  | error failure' => simp [eq_comm]

theorem look_bind_eq_ok {question : Tree → Except Failure α} {b : β} :
    (look question >>= next) p = .ok b p' ↔ ∃ a, question p.tree = .ok a ∧ next a p = .ok b p' := by
  simp only [stateBind_eq_ok, look_eq_ok]
  constructor
  · rintro ⟨a, _, ⟨ha, rfl⟩, h⟩
    exact ⟨a, ha, h⟩
  · rintro ⟨a, ha, h⟩
    exact ⟨a, p, ⟨ha, rfl⟩, h⟩

theorem looks_look {question : Tree → Except Failure α}
    (h : ∀ t failure, question t = .error failure → failure.exitCode ∈ codes) : Looks codes (look question) := by
  intro p
  refine ⟨fun a p' hok => ?_, fun failure p' herror => ?_⟩
  · rw [(look_eq_ok.mp hok).2]
  · obtain ⟨hfailure, rfl⟩ := look_eq_error.mp herror
    exact ⟨rfl, h _ _ hfailure⟩

theorem change_eq_ok {action : Action α} {a : α} :
    change action p = .ok a p' ↔ ∃ t', action p.tree = .ok a t' ∧ p' = { p with tree := t' } := by
  unfold change
  cases action p.tree with
  | ok a' t' => simp [eq_comm]
  | error fault t' => simp

theorem change_eq_error {action : Action α} : change action p = .error failure p' ↔
    ∃ fault t', action p.tree = .error fault t' ∧ failure = .io fault ∧ p' = { p with tree := t' } := by
  unfold change
  cases action p.tree with
  | ok a' t' => simp
  | error fault t' => simp [eq_comm]

theorem ofExcept_ok (a : α) (p : Progress) : ofExcept (.ok a) p = .ok a p := rfl

theorem ofExcept_error (failure : Failure) (p : Progress) :
    (ofExcept (.error failure) : Run α) p = .error failure p := rfl

theorem ofExcept_eq_ok {e : Except Failure α} {a : α} : ofExcept e p = .ok a p' ↔ e = .ok a ∧ p' = p := by
  cases e with
  | ok a' => simp [ofExcept_ok, eq_comm]
  | error failure => simp [ofExcept_error]

theorem ofExcept_eq_error {e : Except Failure α} :
    ofExcept e p = .error failure p' ↔ e = .error failure ∧ p' = p := by
  cases e with
  | ok a' => simp [ofExcept_ok]
  | error failure' => simp [ofExcept_error, eq_comm]

theorem looks_ofExcept {e : Except Failure α} (h : ∀ failure, e = .error failure → failure.exitCode ∈ codes) :
    Looks codes (ofExcept e) := by
  intro p
  refine ⟨fun a p' hok => ?_, fun failure p' herror => ?_⟩
  · rw [(ofExcept_eq_ok.mp hok).2]
  · obtain ⟨hfailure, rfl⟩ := ofExcept_eq_error.mp herror
    exact ⟨rfl, h _ hfailure⟩

-- ---------------------------------------------------------------------------
-- Commands
-- ---------------------------------------------------------------------------

variable {env : Environment} {base : String} {settings : Settings} {source : Source} {auto : Bool} {voice : Voice}
  {c : Candidate}

theorem choose_eq_ok {candidates : List Candidate} {selection : Selection}
    (h : choose env auto candidates p = .ok selection p') :
    (Selection.resolve auto candidates env.answers).result = .ok selection := by
  obtain ⟨⟨⟩, p₁, -, h⟩ := stateBind_eq_ok.mp h
  rw [← (Selection.resolve_trimmed auto candidates env.answers).1]
  generalize (Selection.resolve auto candidates (env.answers.map Text.trimmed)).result = result at h ⊢
  cases result with
  | ok found => exact (ofExcept_eq_ok.mp h).1
  | error failure =>
    generalize env.inputFault = fault at h
    cases failure <;> cases fault <;> cases h

theorem looks_choose (env : Environment) (auto : Bool) (candidates : List Candidate) :
    Looks [1, 2] (choose env auto candidates) := by
  refine (looks_print _).bind fun _ => ?_
  have hlooks : Looks [1, 2] (ofExcept (Selection.resolve auto candidates (env.answers.map Text.trimmed)).result) :=
    looks_ofExcept fun failure he => by simpa using Selection.exitCode_resolve he
  generalize (Selection.resolve auto candidates (env.answers.map Text.trimmed)).result = result at hlooks
  split
  · exact looks_ofExcept (e := .error _) fun failure he => (by cases he; simp [Failure.exitCode])
  · exact hlooks

theorem looks_load (base : String) : Looks [1, 2, 3, 4] (look (Settings.load · base)) :=
  looks_look fun t failure h => by simp [exitCode_settings h]

theorem looks_library (directory initial : String) : Looks [1, 2, 3, 4] (look (Library.load · directory initial)) :=
  looks_look fun t failure h => by simpa using (exitCode_library h).imp_right fun hcode => .inr (.inr hcode)

theorem looks_detection (env : Environment) (base : String) (settings : Settings) (source : Source) (auto : Bool)
    (voice : Voice) : Looks [1, 2, 3, 4] (detection env base settings source auto voice) := by
  unfold detection
  refine (looks_look fun t failure h => by simpa using (exitCode_scan h).imp_right fun hcode => .inr (.inl hcode)).bind fun tasks => (looks_sayAll _).optional ?_
  refine (looks_library _ _).bind fun contents => (looks_sayAll _).optional ?_
  refine looks_get.bind fun now => (looks_sayAll _).optional ?_
  refine ((looks_choose _ _ _).mono (by simp)).bind fun selection => ?_
  cases selection with
  | cancelled => exact looks_pure _
  | selected candidate how => exact (looks_say _).optional (looks_pure _)

theorem looks_detect (env : Environment) (base : String) (voice : Voice) (source : Source) (json : Bool) :
    Looks [1, 2, 3, 4] (detect env base voice source json) := by
  unfold detect
  refine (looks_load base).bind fun settings => (looks_detection _ _ _ _ _ _).bind fun found => ?_
  cases found with
  | none => exact looks_pure _
  | some candidate =>
    dsimp only
    split
    · exact (looks_say _).bind fun _ => looks_pure _
    · split
      · exact (looks_say _).bind fun _ => looks_pure _
      · exact (looks_sayAll _).bind fun _ => looks_pure _

theorem looks_types (base : String) (voice : Voice) (initial : String) (typesDir : Option String) :
    Looks [1, 2, 3, 4] (types base voice initial typesDir) := by
  unfold types
  refine (looks_load base).bind fun settings => ?_
  refine (looks_library _ _).bind fun contents => ?_
  exact (looks_sayAll _).bind fun _ => (looks_sayAll _).bind fun _ => (looks_sayAll _).bind fun _ => looks_say _

theorem looks_listSettings (base : String) : Looks [1, 2, 3, 4] (listSettings base) := by
  unfold listSettings
  refine (looks_load base).bind fun settings => (looks_say _).bind fun _ => (looks_sayAll _).bind fun _ => ?_
  cases settings.legacyChars with
  | none => exact looks_say _
  | some chars => exact (looks_say _).bind fun _ => looks_say _

def readsOnly : Request → Bool
  | .convert .. => false
  | .config (.set ..) | .config .init => false
  | .detect .. | .types .. | .config _ | .completions _ | .help => true

theorem looks_config (base : String) (action : Config) (h : readsOnly (.config action)) :
    Looks [1, 2, 3, 4] (config base action) := by
  cases action with
  | get key =>
    refine (looks_load base).bind fun settings => ?_
    split
    · exact looks_say _
    · exact looks_ofExcept (e := .error _) fun failure he => (by cases he; simp [Failure.exitCode])
  | list => exact looks_listSettings base
  | path => exact looks_say _
  | set key value => cases h
  | init => cases h

-- ---------------------------------------------------------------------------
-- Conversions
-- ---------------------------------------------------------------------------

open Conversion (script Underway Fails Completed Interrupted)

def contextOf (settings : Settings) (source : Source) : Template.Context :=
  match source.name with
  | some name => settings.context.withFixedName name
  | none => settings.context

/-- Settings, tasks and definitions could be read, and of the schemes that fit this one was settled on. -/
structure Settled (t : Tree) (env : Environment) (base : String) (source : Source) (auto : Bool) (settings : Settings)
    (c : Candidate) : Prop where
  loaded : Settings.load t base = .ok settings
  chosen : ∃ tasks contents how, Task.scan t source.taskDir source.level = .ok tasks ∧
    Library.load t (source.typesDir.getD (Settings.typesDir base)) source.initial = .ok contents ∧
    (Selection.resolve auto (Detection.detect t (contextOf settings source) ⟨source.infilesOnly, source.workDir⟩
      contents.definitions tasks).candidates env.answers).result = .ok (.selected c how)

theorem settled_of_detection (hload : Settings.load p.tree base = .ok settings)
    (h : detection env base settings source auto voice p = .ok (some c) p') :
    Settled p.tree env base source auto settings c := by
  unfold detection at h
  obtain ⟨tasks, hscan, hrest⟩ := look_bind_eq_ok.mp h
  obtain ⟨p₂, htree₂, hrest⟩ := (looks_sayAll _).behind_optional hrest
  obtain ⟨contents, hlibrary, hrest⟩ := look_bind_eq_ok.mp hrest
  obtain ⟨p₄, htree₄, hrest⟩ := (looks_sayAll _).behind_optional hrest
  obtain ⟨now, p₅, hnow, hrest⟩ := stateBind_eq_ok.mp hrest
  cases hnow
  obtain ⟨p₆, -, hrest⟩ := (looks_sayAll _).behind_optional hrest
  obtain ⟨selection, p₇, hchoose, hrest⟩ := stateBind_eq_ok.mp hrest
  have hresult := choose_eq_ok hchoose
  rw [htree₄, htree₂] at hresult
  rw [htree₂] at hlibrary
  cases selection with
  | cancelled => cases hrest
  | selected candidate how =>
    obtain ⟨p₈, -, hrest⟩ := (looks_say _).behind_optional hrest
    cases hrest
    exact ⟨hload, tasks, contents, how, hscan, hlibrary, hresult⟩

def optionsOf (settings : Settings) (source : Source) (moving keep : Bool) (marksFile : Option String) :
    Conversion.Options where
  taskDir := source.taskDir
  workDir := source.workDir
  mode := if moving then .move else .copy
  clean := !keep
  infilesOnly := source.infilesOnly
  marksFile := marksFile.getD settings.marksFile

theorem behind_get {next : Progress → Run β} {r : EStateM.Result Failure Progress β} (hend : (get >>= next) p = r) :
    next p p = r := hend

theorem behind_modify {f : Progress → Progress} {next : PUnit → Run β} {r : EStateM.Result Failure Progress β}
    (hend : (modify f >>= next) p = r) : next ⟨⟩ (f p) = r := hend

theorem convertCandidate_ends (voice : Voice) (o : Conversion.Options) (c : Candidate) (p : Progress) :
    ∃ p', p'.tree = (Conversion.apply p.tree o c).tree ∧
      ((∃ report, (Conversion.apply p.tree o c).result = .ok report ∧ convertCandidate voice o c p = .ok () p') ∨
        ∃ failure, (Conversion.apply p.tree o c).result = .error failure ∧
          convertCandidate voice o c p = .error failure p') := by
  generalize hend : convertCandidate voice o c p = r
  unfold convertCandidate at hend
  obtain ⟨p₁, htree₁, hend⟩ := (looks_sayAll _).behind_optional hend
  obtain ⟨p₂, htree₂, hend⟩ := (looks_sayAll _).behind_optional (behind_modify (behind_get hend))
  rw [← htree₁]
  cases hresult : (Conversion.apply p₁.tree o c).result with
  | error failure =>
    rw [hresult] at hend
    exact ⟨p₂, htree₂, .inr ⟨failure, rfl, hend.symm⟩⟩
  | ok report =>
    rw [hresult] at hend
    have hok : Looks [] (ofExcept (.ok report)) := looks_ofExcept fun failure he => (by cases he)
    obtain ⟨report', p₃, htree₃, hend⟩ := hok.behind hend
    obtain ⟨⟨⟩, p₄, htree₄, hend⟩ := (looks_complain _).behind hend
    have hlast : Looks [] (if !voice.quiet then sayAll (Report.conversionLines o.workDir report') else pure ()) := by
      split
      · exact looks_sayAll _
      · exact looks_pure _
    obtain ⟨⟨⟩, p₅, htree₅, hlast⟩ := hlast.ends p₄
    refine ⟨p₅, ?_, .inl ⟨report, rfl, hend.symm.trans hlast⟩⟩
    rw [htree₅, htree₄, htree₃, htree₂]

/-- How a run for a conversion ends: it fails before the conversion, or is cancelled then, or ends as the conversion of
the candidate that it settles on. -/
inductive Converts (t : Tree) (env : Environment) (base : String) (source : Source) (auto : Bool)
    (optionsFor : Settings → Conversion.Options) : EStateM.Result Failure Progress End → Prop
  | refused {failure : Failure} {p : Progress} (htree : p.tree = t)
    (hcode : failure.exitCode ∈ [1, 2, 3, 4]) :
    Converts t env base source auto optionsFor (.error failure p)
  | cancelled {p : Progress} (htree : p.tree = t) : Converts t env base source auto optionsFor (.ok .cancelled p)
  | done {p : Progress} {settings : Settings} {c : Candidate} {report : Conversion.Report}
    (hsettled : Settled t env base source auto settings c)
    (hresult : (Conversion.apply t (optionsFor settings) c).result = .ok report)
    (htree : p.tree = (Conversion.apply t (optionsFor settings) c).tree) :
    Converts t env base source auto optionsFor (.ok .done p)
  | failed {p : Progress} {settings : Settings} {c : Candidate} {failure : Failure}
    (hsettled : Settled t env base source auto settings c)
    (hresult : (Conversion.apply t (optionsFor settings) c).result = .error failure)
    (htree : p.tree = (Conversion.apply t (optionsFor settings) c).tree) :
    Converts t env base source auto optionsFor (.error failure p)

theorem converts_convert (env : Environment) (base : String) (voice : Voice) (source : Source) (moving keep : Bool)
    (marksFile : Option String) (p : Progress) :
    Converts p.tree env base source (source.auto || voice.quiet)
      (fun settings => optionsOf settings source moving keep marksFile)
      (convert env base voice source moving keep marksFile p) := by
  unfold convert
  cases hload : Settings.load p.tree base with
  | error failure =>
    rw [stateBind_of_error (look_eq_error.mpr ⟨hload, rfl⟩)]
    exact .refused rfl (by simp [exitCode_settings hload])
  | ok settings =>
    rw [stateBind_of_ok (look_eq_ok.mpr ⟨hload, rfl⟩)]
    have hlooks := looks_detection env base settings source (source.auto || voice.quiet) voice p
    cases hfound : detection env base settings source (source.auto || voice.quiet) voice p with
    | error failure p₁ =>
      rw [stateBind_of_error hfound]
      exact .refused (hlooks.2 failure p₁ hfound).1 (hlooks.2 failure p₁ hfound).2
    | ok found p₁ =>
      rw [stateBind_of_ok hfound]
      have htree := hlooks.1 found p₁ hfound
      cases found with
      | none => exact .cancelled htree
      | some c =>
        have hsettled := settled_of_detection hload hfound
        have hends := convertCandidate_ends voice (optionsOf settings source moving keep marksFile) c p₁
        rw [htree] at hends
        change Converts _ _ _ _ _ _ ((convertCandidate voice (optionsOf settings source moving keep marksFile) c >>=
          fun _ => pure End.done) p₁)
        obtain ⟨p₂, htree₂, ⟨report, hresult, hdone⟩ | ⟨failure, hresult, hdone⟩⟩ := hends
        · rw [stateBind_of_ok hdone]
          exact .done hsettled hresult htree₂
        · rw [stateBind_of_error hdone]
          exact .failed hsettled hresult htree₂

-- ---------------------------------------------------------------------------
-- Settings
-- ---------------------------------------------------------------------------

theorem set_eq_error {s : Settings} {key value : String} (h : s.set key value = .error failure) :
    failure.exitCode = 1 := by
  unfold Settings.set at h
  split at h
  · cases h
    rfl
  · split at h <;> cases h
    rfl

theorem config_eq_error {action : Config} (hreads : readsOnly (.config action) = false)
    (h : config base action p = .error failure p') : failure.exitCode = 1 := by
  cases action with
  | get key => cases hreads
  | list => cases hreads
  | path => cases hreads
  | set key value =>
    rcases stateBind_eq_error.mp h with h | ⟨settings, p₁, -, h⟩
    · exact exitCode_settings (look_eq_error.mp h).1
    rcases stateBind_eq_error.mp h with h | ⟨settings', p₂, -, h⟩
    · exact set_eq_error (ofExcept_eq_error.mp h).1
    rcases stateBind_eq_error.mp h with h | ⟨⟨⟩, p₃, -, h⟩
    · obtain ⟨fault, t', -, rfl, -⟩ := change_eq_error.mp h
      rfl
    · cases h
  | init =>
    rcases stateBind_eq_error.mp h with h | ⟨⟨⟩, p₁, -, h⟩
    · obtain ⟨fault, t', -, rfl, -⟩ := change_eq_error.mp h
      rfl
    · cases h

end Run

-- ---------------------------------------------------------------------------
-- Command lines
-- ---------------------------------------------------------------------------

open Run (readsOnly Settled optionsOf)
open Conversion (Fails Interrupted Completed)

variable {env : Environment} {inv : Invocation} {source : Source} {moving keep : Bool} {marksFile : Option String}

theorem looks_toRun (h : readsOnly inv.request) (env : Environment) : Run.Looks [1, 2, 3, 4] (inv.toRun env) := by
  unfold Invocation.toRun
  dsimp only
  split
  · rename_i hrequest
    rw [hrequest] at h
    cases h
  · exact Run.looks_detect _ _ _ _ _
  · exact (Run.looks_types _ _ _ _).bind fun _ => Run.looks_pure _
  · rename_i hrequest
    rw [hrequest] at h
    exact (Run.looks_config _ _ h).bind fun _ => Run.looks_pure _
  · exact (Run.looks_print _).bind fun _ => Run.looks_pure _
  · exact (Run.looks_print _).bind fun _ => Run.looks_pure _

variable {arguments : List String} {p : Progress}

theorem run_of_invocation (h : Invocation.ofArguments arguments = .ok inv) :
    run arguments env t = inv.run env t := by
  rw [run, h]

theorem tree_of_stop {stop : Stop} (h : Invocation.ofArguments arguments = .error stop) (env : Environment) (t : Tree) :
    (run arguments env t).tree = t ∧ (run arguments env t).exitCode ≠ 6 := by
  rw [run, h]
  cases stop <;> exact ⟨rfl, by simp [Stop.outcome]⟩

theorem run_of_done (h : inv.toRun env ⟨t, "", ""⟩ = .ok .done p) :
    (inv.run env t).exitCode = 0 ∧ (inv.run env t).tree = p.tree := by
  rw [Invocation.run, h]
  exact ⟨rfl, rfl⟩

theorem run_of_cancelled (h : inv.toRun env ⟨t, "", ""⟩ = .ok .cancelled p) :
    (inv.run env t).exitCode = cancelledExitCode ∧ (inv.run env t).tree = p.tree := by
  rw [Invocation.run, h]
  exact ⟨rfl, rfl⟩

theorem run_of_error (h : inv.toRun env ⟨t, "", ""⟩ = .error failure p) :
    (inv.run env t).exitCode = failure.exitCode ∧ (inv.run env t).tree = p.tree := by
  rw [Invocation.run, h]
  exact ⟨rfl, rfl⟩

theorem run_of_readsOnly (h : readsOnly inv.request) (env : Environment) (t : Tree) :
    (inv.run env t).tree = t ∧ (inv.run env t).exitCode ≠ 6 := by
  have hlooks := looks_toRun h env ⟨t, "", ""⟩
  cases hend : inv.toRun env ⟨t, "", ""⟩ with
  | ok ending p =>
    have htree := hlooks.1 ending p hend
    cases ending with
    | done =>
      obtain ⟨hcode, hafter⟩ := run_of_done hend
      exact ⟨hafter.trans htree, by simp [hcode]⟩
    | cancelled =>
      obtain ⟨hcode, hafter⟩ := run_of_cancelled hend
      exact ⟨hafter.trans htree, by simp [hcode, cancelledExitCode]⟩
  | error failure p =>
    obtain ⟨htree, hmem⟩ := hlooks.2 failure p hend
    obtain ⟨hcode, hafter⟩ := run_of_error hend
    refine ⟨hafter.trans htree, fun hsix => ?_⟩
    rw [← hcode, hsix] at hmem
    simp at hmem

def refusalCodes : List Nat := [2, 3, 4, 5, cancelledExitCode]

/-- How a run for a conversion ends, by its exit code. -/
structure ConversionTells (t : Tree) (env : Environment) (inv : Invocation) (source : Source) (moving keep : Bool)
    (marksFile : Option String) (outcome : Outcome) : Prop where
  refused : outcome.exitCode ∈ refusalCodes → outcome.tree = t
  interrupted : outcome.exitCode = 6 → ∃ settings c,
    Settled t env (env.base inv) source (source.auto || inv.quiet) settings c ∧
      ∃ before m behind first tr rest, Interrupted t (optionsOf settings source moving keep marksFile) c outcome.tree
        before m behind first tr rest
  completed : outcome.exitCode = 0 → ∃ settings c,
    Settled t env (env.base inv) source (source.auto || inv.quiet) settings c ∧
      Completed t (optionsOf settings source moving keep marksFile) c outcome.tree

theorem found_of_settled {base : String} {auto : Bool} {settings : Settings} {c : Candidate} (ht : t.WellFormed)
    (h : Settled t env base source auto settings c) :
    Conversion.Found t (optionsOf settings source moving keep marksFile) source.level c ∧
      (source.infilesOnly = true → ∀ m ∈ c.tasks, m.outputs = []) := by
  obtain ⟨-, tasks, contents, how, hscan, -, hresult⟩ := h
  have hmem := Selection.mem_of_resolve hresult
  rw [Detection.candidates_detect] at hmem
  obtain ⟨definition, -, hevaluate⟩ := Detection.mem_accepted.mp ((ranked_sort _).perm.mem_iff.mp hmem)
  exact ⟨Conversion.found_of_evaluate ht hscan hevaluate, Detection.outputs_eq_nil hevaluate⟩

theorem exitCode_fails {o : Conversion.Options} {c : Candidate} (h : Fails t o c failure)
    (hresult : (Conversion.apply t o c).result = .error failure) :
    failure.exitCode = 5 ∧ (Conversion.apply t o c).tree = t ∨ failure.exitCode = 1 ∨ failure.exitCode = 6 ∧
      ∃ before m behind first tr rest,
        Interrupted t o c (Conversion.apply t o c).tree before m behind first tr rest := by
  cases h with
  | refused hcheck htree => exact .inl ⟨exitCode_check hcheck, htree⟩
  | io hio =>
    obtain ⟨fault, rfl⟩ := hio
    exact .inr (.inl rfl)
  | interrupted before m behind first tr rest h =>
    obtain ⟨fault, -, hfails⟩ := h.fails
    rw [hresult] at hfails
    cases hfails
    exact .inr (.inr ⟨rfl, before, m, behind, first, tr, rest, h⟩)

theorem conversionTells (ht : t.WellFormed) (env : Environment)
    (hrequest : inv.request = .convert source moving keep marksFile) :
    ConversionTells t env inv source moving keep marksFile (inv.run env t) := by
  have hends := Run.converts_convert env (env.base inv) (Voice.of inv) source moving keep marksFile ⟨t, "", ""⟩
  have hrun : inv.toRun env ⟨t, "", ""⟩ =
      Run.convert env (env.base inv) (Voice.of inv) source moving keep marksFile ⟨t, "", ""⟩ := by
    rw [Invocation.toRun, hrequest]
  rw [← hrun] at hends
  generalize hend : inv.toRun env ⟨t, "", ""⟩ = ending at hends
  cases hends with
  | refused htree hmem =>
    obtain ⟨hcode, hafter⟩ := run_of_error hend
    rw [← hcode] at hmem
    refine ⟨fun _ => hafter.trans htree, fun hsix => ?_, fun hzero => ?_⟩
    · simp [hsix] at hmem
    · simp [hzero] at hmem
  | cancelled htree =>
    obtain ⟨hcode, hafter⟩ := run_of_cancelled hend
    exact ⟨fun _ => hafter.trans htree, fun hsix => by simp [hcode, cancelledExitCode] at hsix,
      fun hzero => by simp [hcode, cancelledExitCode] at hzero⟩
  | done hsettled hresult htree =>
    obtain ⟨hcode, hafter⟩ := run_of_done hend
    obtain ⟨hfound, hins⟩ := found_of_settled ht hsettled
    refine ⟨fun hmem => ?_, fun hsix => ?_, fun _ => ⟨_, _, hsettled, ?_⟩⟩
    · simp [hcode, refusalCodes, cancelledExitCode] at hmem
    · simp [hcode] at hsix
    · rw [hafter, htree]
      exact hfound.completed hins hresult
  | failed hsettled hresult htree =>
    obtain ⟨hcode, hafter⟩ := run_of_error hend
    obtain ⟨hfound, -⟩ := found_of_settled ht hsettled
    have htree := hafter.trans htree
    rcases exitCode_fails (Conversion.fails_of_apply hfound.underway hresult) hresult with
      ⟨hfive, hsame⟩ | hone | ⟨hsix, hinterrupted⟩
    · refine ⟨fun _ => htree.trans hsame, fun hsix => ?_, fun hzero => ?_⟩
      · simp [hcode, hfive] at hsix
      · simp [hcode, hfive] at hzero
    · refine ⟨fun hmem => ?_, fun hsix => ?_, fun hzero => ?_⟩
      · simp [hcode, hone, refusalCodes, cancelledExitCode] at hmem
      · simp [hcode, hone] at hsix
      · simp [hcode, hone] at hzero
    · refine ⟨fun hmem => ?_, fun _ => ⟨_, _, hsettled, htree ▸ hinterrupted⟩, fun hzero => ?_⟩
      · simp [hcode, hsix, refusalCodes, cancelledExitCode] at hmem
      · simp [hcode, hsix] at hzero

theorem exitCode_of_config {action : Config} (hrequest : inv.request = .config action)
    (hreads : readsOnly (.config action) = false) (env : Environment) (t : Tree) :
    (inv.run env t).exitCode = 0 ∨ (inv.run env t).exitCode = 1 := by
  have hrun : inv.toRun env ⟨t, "", ""⟩ =
      (Run.config (env.base inv) action >>= fun _ => pure End.done) ⟨t, "", ""⟩ := by
    rw [Invocation.toRun, hrequest]
  cases hconfig : Run.config (env.base inv) action ⟨t, "", ""⟩ with
  | ok u p =>
    rw [stateBind_of_ok hconfig] at hrun
    exact .inl (run_of_done hrun).1
  | error failure p =>
    rw [stateBind_of_error hconfig] at hrun
    exact .inr ((run_of_error hrun).1.trans (Run.config_eq_error hreads hconfig))

theorem request_cases (request : Request) : readsOnly request ∨
    (∃ source moving keep marksFile, request = .convert source moving keep marksFile) ∨
      ∃ action, request = .config action ∧ readsOnly (.config action) = false := by
  cases request with
  | convert source moving keep marksFile => exact .inr (.inl ⟨source, moving, keep, marksFile, rfl⟩)
  | config action =>
    cases hreads : readsOnly (.config action) with
    | true => exact .inl rfl
    | false => exact .inr (.inr ⟨action, rfl, hreads⟩)
  | _ => exact .inl rfl

/-- A run that refuses to go on or is cancelled leaves the tree as it was, and so does every request that only reads it.
A transfer that fails leaves what was done before it, and a conversion that succeeds has done all. -/
theorem exit_codes_tell (ht : t.WellFormed) (arguments : List String) (env : Environment) :
    ((run arguments env t).exitCode ∈ refusalCodes → (run arguments env t).tree = t) ∧
    (∀ inv, Invocation.ofArguments arguments = .ok inv → readsOnly inv.request → (run arguments env t).tree = t) ∧
    (∀ inv source moving keep marksFile, Invocation.ofArguments arguments = .ok inv →
      inv.request = .convert source moving keep marksFile →
        ConversionTells t env inv source moving keep marksFile (run arguments env t)) ∧
    ((run arguments env t).exitCode = 6 → ∃ inv source moving keep marksFile,
      Invocation.ofArguments arguments = .ok inv ∧ inv.request = .convert source moving keep marksFile) := by
  cases hparse : Invocation.ofArguments arguments with
  | error stop =>
    obtain ⟨hsame, hcode⟩ := tree_of_stop hparse env t
    exact ⟨fun _ => hsame, fun inv he => (by cases he), fun inv _ _ _ _ he => (by cases he),
      fun hsix => absurd hsix hcode⟩
  | ok inv =>
    rw [run_of_invocation hparse]
    refine ⟨fun hmem => ?_, fun inv' he hreads => ?_, fun inv' source moving keep marksFile he hrequest => ?_,
      fun hsix => ?_⟩
    · rcases request_cases inv.request with hreads | ⟨source, moving, keep, marksFile, hrequest⟩ |
        ⟨action, hrequest, hreads⟩
      · exact (run_of_readsOnly hreads env t).1
      · exact (conversionTells ht env hrequest).refused hmem
      · rcases exitCode_of_config hrequest hreads env t with hcode | hcode
        · simp [hcode, refusalCodes, cancelledExitCode] at hmem
        · simp [hcode, refusalCodes, cancelledExitCode] at hmem
    · cases he
      exact (run_of_readsOnly hreads env t).1
    · cases he
      exact conversionTells ht env hrequest
    · rcases request_cases inv.request with hreads | ⟨source, moving, keep, marksFile, hrequest⟩ |
        ⟨action, hrequest, hreads⟩
      · exact absurd hsix (run_of_readsOnly hreads env t).2
      · exact ⟨inv, source, moving, keep, marksFile, rfl, hrequest⟩
      · rcases exitCode_of_config hrequest hreads env t with hcode | hcode
        · simp [hcode] at hsix
        · simp [hcode] at hsix

/-- A task with one test, a library, and a file where a directory for the task would be made. -/
def blocked : Tree :=
  [(["types"], .directory), (["types", "plain"], .file "$\x7bS\x7d.in\n$\x7bS\x7d.out\n".toUTF8),
    (["tasks"], .directory), (["tasks", "a"], .directory), (["tasks", "a", "1.in"], .file .empty),
    (["w"], .directory), (["w", "a"], .file .empty)].foldl (fun t (key, entry) => t.put key entry) .empty

theorem blocked_wellFormed : blocked.WellFormed := by decide

def convertLine (taskDir workDir : String) : List String :=
  ["convert", "--infiles-only", "--types-dir", "types", "--level", "1", "--dir", taskDir, "--workdir", workDir]

def convertSource (taskDir workDir : String) : Source := ⟨taskDir, workDir, false, true, "", 1, none, some "types"⟩

def noInput : Environment := ⟨none, none, [], none⟩

/-- No tasks are found, the transfer into the file fails, and elsewhere all goes well. -/
theorem exit_codes_tell_blocked :
    (blocked.WellFormed ∧
      ∀ workDir, workDir = "w" ∨ workDir = "v" → Invocation.ofArguments (convertLine "tasks" workDir) =
        .ok ⟨false, false, none, .convert (convertSource "tasks" workDir) false false none⟩) ∧
    (run (convertLine "nowhere" "w") noInput blocked).exitCode = 3 ∧
    (run (convertLine "nowhere" "w") noInput blocked).tree = blocked ∧
    (run (convertLine "tasks" "w") noInput blocked).exitCode = 6 ∧
    (∃ settings c before m behind first tr rest,
      Interrupted blocked (optionsOf settings (convertSource "tasks" "w") false false none) c
        (run (convertLine "tasks" "w") noInput blocked).tree before m behind first tr rest) ∧
    (run (convertLine "tasks" "v") noInput blocked).exitCode = 0 ∧
    ∃ settings c, Completed blocked (optionsOf settings (convertSource "tasks" "v") false false none) c
      (run (convertLine "tasks" "v") noInput blocked).tree := by
  have hparse : ∀ workDir, workDir = "w" ∨ workDir = "v" → Invocation.ofArguments (convertLine "tasks" workDir) =
      .ok ⟨false, false, none, .convert (convertSource "tasks" workDir) false false none⟩ := by
    rintro workDir (rfl | rfl) <;> rfl
  have hrefused : (run (convertLine "nowhere" "w") noInput blocked).exitCode = 3 := by decide +kernel
  have hinterrupted : (run (convertLine "tasks" "w") noInput blocked).exitCode = 6 := by decide +kernel
  have hdone : (run (convertLine "tasks" "v") noInput blocked).exitCode = 0 := by decide +kernel
  have hsame := (exit_codes_tell blocked_wellFormed (convertLine "nowhere" "w") noInput).1
    (by rw [hrefused]; decide)
  have htells (workDir : String) (hworkDir : workDir = "w" ∨ workDir = "v") :=
    (exit_codes_tell blocked_wellFormed (convertLine "tasks" workDir) noInput).2.2.1 _ _ _ _ _
      (hparse workDir hworkDir) rfl
  obtain ⟨settings, c, -, hat⟩ := (htells "w" (.inl rfl)).interrupted hinterrupted
  obtain ⟨settings', c', -, hall⟩ := (htells "v" (.inr rfl)).completed hdone
  exact ⟨⟨blocked_wellFormed, hparse⟩, hrefused, hsame, hinterrupted, ⟨settings, c, hat⟩, hdone,
    settings', c', hall⟩

end Command

end ContestTests
