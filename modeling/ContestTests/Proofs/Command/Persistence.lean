import ContestTests.Proofs.Command.ExitCodes
import ContestTests.Proofs.Settings.Saving

/-!
# Settings persist from run to run

Each run that sets a value loads the settings, changes one value and saves them. Over any sequence of such
runs every key keeps what the last successful one gave it, and the characters from the older file
stay in force without ever getting into the newer one. A run that fails changes no file.
-/

namespace ContestTests.Command

open ContestTests.Path

variable {t t' : Tree} {base key : String} {s initial final : Settings} {env : Environment} {inv : Invocation}

-- ---------------------------------------------------------------------------
-- Runs that set values
-- ---------------------------------------------------------------------------

/-- A run that sets a value in the settings of this base directory. -/
structure SetRun (base : String) where
  inv : Invocation
  env : Environment
  key : String
  value : String
  request : inv.request = .config (.set key value)
  base_eq : env.base inv = base

variable {r : SetRun base} {runs : List (SetRun base)}

def SetRun.outcome (r : SetRun base) (t : Tree) : Outcome := r.inv.run r.env t

def afterRuns : List (SetRun base) → Tree → Tree
  | [], t => t
  | r :: runs, t => afterRuns runs (r.outcome t).tree

def succeeded : List (SetRun base) → Tree → List (SetRun base)
  | [], _ => []
  | r :: runs, t => (if (r.outcome t).exitCode = 0 then [r] else []) ++ succeeded runs (r.outcome t).tree

/-- The value that the last of the runs for a key sets. -/
def lastValue (key : String) (runs : List (SetRun base)) : Option String :=
  (runs.reverse.find? (·.key == key)).map (·.value)

theorem lastValue_append (key : String) (runs more : List (SetRun base)) :
    lastValue key (runs ++ more) = (lastValue key more).or (lastValue key runs) := by
  rw [lastValue, List.reverse_append, List.find?_append, Option.map_or]
  rfl

theorem lastValue_singleton (key : String) (r : SetRun base) :
    lastValue key [r] = if key = r.key then some r.value else none := by
  by_cases hkey : key = r.key
  · simp [lastValue, hkey]
  · simp [lastValue, hkey, Ne.symm hkey]

inductive Ends (t : Tree) (s : Settings) (r : SetRun base) : Prop
  | set (s' : Settings) (hset : s.set r.key r.value = .ok s') (hsave : s'.save base t = .ok () (r.outcome t).tree)
      (hcode : (r.outcome t).exitCode = 0)
  | refused (failure : Failure) (hset : s.set r.key r.value = .error failure) (htree : (r.outcome t).tree = t)
      (hcode : (r.outcome t).exitCode ≠ 0)
  | unsaved (s' : Settings) (fault : Fault) (hset : s.set r.key r.value = .ok s')
      (hsave : s'.save base t = .error fault (r.outcome t).tree) (hcode : (r.outcome t).exitCode ≠ 0)

theorem toRun_set (r : SetRun base) : r.inv.toRun r.env = (do
    Run.setting base r.key r.value
    return .done) := by
  simp only [Invocation.toRun, r.request, r.base_eq, Run.config]

theorem ends_of_load (hload : Settings.load t base = .ok s) (r : SetRun base) : Ends t s r := by
  cases hend : r.inv.toRun r.env ⟨t, "", ""⟩ with
  | ok ending p =>
    have hrun := hend
    rw [toRun_set] at hrun
    obtain ⟨⟨⟩, p₁, hsetting, hreturn⟩ := stateBind_eq_ok.mp hrun
    cases hreturn
    obtain ⟨hcode, htree⟩ := run_of_done hend
    obtain ⟨loaded, hloaded, hsetting⟩ := Run.look_bind_eq_ok.mp hsetting
    obtain rfl : s = loaded := Except.ok.inj (hload.symm.trans hloaded)
    obtain ⟨s', p₂, hofSet, hsetting⟩ := stateBind_eq_ok.mp hsetting
    obtain ⟨hset, rfl⟩ := Run.ofExcept_eq_ok.mp hofSet
    obtain ⟨⟨⟩, p₃, hchange, hsay⟩ := stateBind_eq_ok.mp hsetting
    cases hsay
    obtain ⟨t', hsave, rfl⟩ := Run.change_eq_ok.mp hchange
    exact .set s' hset (htree ▸ hsave) hcode
  | error failure p =>
    have hrun := hend
    rw [toRun_set] at hrun
    obtain ⟨hcode, htree⟩ := run_of_error hend
    have hsetting : Run.setting base r.key r.value ⟨t, "", ""⟩ = .error failure p := by
      rcases stateBind_eq_error.mp hrun with hsetting | ⟨⟨⟩, p₁, -, hreturn⟩
      · exact hsetting
      · cases hreturn
    have hne : (r.outcome t).exitCode ≠ 0 := by
      have hconfig : Run.config base (.set r.key r.value) ⟨t, "", ""⟩ = .error failure p := hsetting
      have hone := Run.config_eq_error rfl hconfig
      have hsame : (r.outcome t).exitCode = failure.exitCode := hcode
      omega
    rcases stateBind_eq_error.mp hsetting with hlook | ⟨loaded, p₁, hlook, hrest⟩
    · rw [(Run.look_eq_error.mp hlook).1] at hload
      cases hload
    obtain ⟨hloaded, rfl⟩ := Run.look_eq_ok.mp hlook
    obtain rfl : s = loaded := Except.ok.inj (hload.symm.trans hloaded)
    rcases stateBind_eq_error.mp hrest with hofSet | ⟨s', p₂, hofSet, hrest⟩
    · obtain ⟨hset, rfl⟩ := Run.ofExcept_eq_error.mp hofSet
      exact .refused failure hset htree hne
    obtain ⟨hset, rfl⟩ := Run.ofExcept_eq_ok.mp hofSet
    rcases stateBind_eq_error.mp hrest with hchange | ⟨⟨⟩, p₃, -, hsay⟩
    · obtain ⟨fault, t', hsave, -, rfl⟩ := Run.change_eq_error.mp hchange
      exact .unsaved s' fault hset (htree ▸ hsave) hne
    · cases hsay

-- ---------------------------------------------------------------------------
-- Runs that fail
-- ---------------------------------------------------------------------------

/-- No file has changed, and at most missing directories of the base path were made. -/
structure Spared (base : String) (t t' : Tree) : Prop where
  files : t'.fileAt = t.fileAt
  current : t'.current = t.current
  kept : t.Keeps t'
  made : ∀ key, t'.find? key = some .directory → t.find? key = some .directory ∨ t.OnWay base key
  whole : t.isDirectory base → t' = t

theorem Spared.refl (base : String) (t : Tree) : Spared base t t :=
  ⟨rfl, rfl, .refl t, fun _ => .inl, fun _ => rfl⟩

theorem spared_of_save {fault : Fault} (ht : t.WellFormed) (h : s.save base t = .error fault t') : Spared base t t' := by
  have hpaves := Settings.save_eq_error ht h
  refine ⟨hpaves.fileAt, hpaves.current, hpaves.keeps, fun key hdir => ?_,
    fun hbase => Settings.save_eq_error_of_isDirectory hbase h⟩
  rcases hpaves.find? key with he | ⟨-, -, hway⟩
  · exact .inl (he ▸ hdir)
  · exact .inr hway

/-- A run that fails spares the tree, and leaves it whole if the value is refused. -/
theorem spared_of_failure (ht : t.WellFormed) (hload : Settings.load t base = .ok s) (r : SetRun base)
    (hcode : (r.outcome t).exitCode ≠ 0) : Spared base t (r.outcome t).tree ∧
      ∀ failure, s.set r.key r.value = .error failure → (r.outcome t).tree = t := by
  cases ends_of_load hload r with
  | set s' _ _ hdone => exact absurd hdone hcode
  | refused failure _ htree _ =>
    rw [htree]
    exact ⟨.refl base t, fun _ _ => rfl⟩
  | unsaved s' fault hset hsave _ =>
    refine ⟨spared_of_save ht hsave, fun failure hrefused => ?_⟩
    rw [hset] at hrefused
    cases hrefused

-- ---------------------------------------------------------------------------
-- Sequences of runs
-- ---------------------------------------------------------------------------

structure Reached (t : Tree) (base : String) (initial : Settings) (runs : List (SetRun base)) (final : Settings) : Prop where
  wellFormed : (afterRuns runs t).WellFormed
  current : (afterRuns runs t).current = t.current
  kept : t.Keeps (afterRuns runs t)
  loaded : Settings.load (afterRuns runs t) base = .ok final
  values : ∀ key, final.get? key = (lastValue key (succeeded runs t)).or (initial.get? key)
  legacyChars : final.legacyChars = initial.legacyChars
  files : ∀ key, (afterRuns runs t).fileAt key =
    if key = t.keyOf (Settings.path base) ∧ succeeded runs t ≠ [] then
      some (Settings.toText { final with legacyChars := none }).toUTF8
    else t.fileAt key

theorem reached_nil (ht : t.WellFormed) (hload : Settings.load t base = .ok initial) : Reached t base initial [] initial :=
  ⟨ht, rfl, .refl t, hload, fun _ => rfl, rfl, fun key => by simp [succeeded, afterRuns]⟩

theorem Reached.cons_set {s' : Settings} (hset : initial.set r.key r.value = .ok s')
    (hsaved : Settings.Saved t base s' (r.outcome t).tree) (hcode : (r.outcome t).exitCode = 0)
    (h : Reached (r.outcome t).tree base s' runs final) : Reached t base initial (r :: runs) final := by
  have hkey : (r.outcome t).tree.keyOf (Settings.path base) = t.keyOf (Settings.path base) :=
    Tree.keyOf_congr hsaved.current _
  have hsucceeded : succeeded (r :: runs) t = [r] ++ succeeded runs (r.outcome t).tree := by
    rw [succeeded, if_pos hcode]
  refine ⟨h.wellFormed, h.current.trans hsaved.current, hsaved.kept.trans h.kept, h.loaded, fun key => ?_,
    h.legacyChars.trans (Settings.legacyChars_of_set hset), fun key => ?_⟩
  · rw [h.values, Settings.get?_of_set hset, hsucceeded, lastValue_append, lastValue_singleton, Option.or_assoc]
    split <;> rfl
  · rw [afterRuns, h.files, hkey, hsaved.files, hsucceeded]
    by_cases hpath : key = t.keyOf (Settings.path base)
    · by_cases hnone : succeeded runs (r.outcome t).tree = []
      · -- No later run succeeds, so that the text is still that of this one.
        have hsame : final = s' := Settings.eq_of_get? (fun key => by rw [h.values, hnone]; rfl) h.legacyChars
        rw [if_neg (by simp [hnone]), if_pos hpath, if_pos (by simp [hpath]), hsame]
        rfl
      · rw [if_pos ⟨hpath, hnone⟩, if_pos (by simp [hpath])]
    · rw [if_neg (by simp [hpath]), if_neg hpath, if_neg (by simp [hpath])]

/-- A run that fails changes nothing that others see. -/
theorem Reached.cons_spared (hspared : Spared base t (r.outcome t).tree) (hcode : (r.outcome t).exitCode ≠ 0)
    (h : Reached (r.outcome t).tree base initial runs final) : Reached t base initial (r :: runs) final := by
  have hkey : (r.outcome t).tree.keyOf (Settings.path base) = t.keyOf (Settings.path base) :=
    Tree.keyOf_congr hspared.current _
  have hsucceeded : succeeded (r :: runs) t = succeeded runs (r.outcome t).tree := by
    rw [succeeded, if_neg hcode, List.nil_append]
  refine ⟨h.wellFormed, h.current.trans hspared.current, hspared.kept.trans h.kept, h.loaded, fun key => ?_,
    h.legacyChars, fun key => ?_⟩
  · rw [hsucceeded]
    exact h.values key
  · rw [hsucceeded, ← hkey, ← hspared.files]
    exact h.files key

theorem exists_reached (ht : t.WellFormed) (hgrounded : t.Grounded base) (hload : Settings.load t base = .ok initial)
    (runs : List (SetRun base)) : ∃ final, Reached t base initial runs final := by
  induction runs generalizing t initial with
  | nil => exact ⟨initial, reached_nil ht hload⟩
  | cons r runs ih =>
    cases ends_of_load hload r with
    | set s' hset hsave hcode =>
      obtain ⟨-, -, -, hsaved⟩ := Settings.save_eq_ok ht hsave
      have hloaded := Settings.load_of_saved ht hgrounded hload hsave (Settings.legacyChars_of_set hset)
      obtain ⟨final, h⟩ := ih hsaved.wellFormed (hsaved.kept.grounded hsaved.current hgrounded) hloaded
      exact ⟨final, h.cons_set hset hsaved hcode⟩
    | refused failure hset htree hcode =>
      obtain ⟨final, h⟩ := ih ht hgrounded hload
      refine ⟨final, Reached.cons_spared (spared_of_failure ht hload r hcode).1 hcode ?_⟩
      rwa [htree]
    | unsaved s' fault hset hsave hcode =>
      have hpaves := Settings.save_eq_error ht hsave
      have hspared := spared_of_save ht hsave
      have hloaded := (Settings.load_of_paves ht hgrounded hpaves).trans hload
      obtain ⟨final, h⟩ := ih hpaves.wellFormed (hspared.kept.grounded hspared.current hgrounded) hloaded
      exact ⟨final, h.cons_spared hspared hcode⟩

-- ---------------------------------------------------------------------------
-- What runs tell afterwards
-- ---------------------------------------------------------------------------

def valueLines (s : Settings) : String := Report.unlines (s.list.map fun (key, value) => s!"{key} = {value}")

def notice (s : Settings) : String :=
  match s.legacyChars with
  | some chars => s!"[WARN] {Settings.Key.nameChars.text} overridden by .cfg: [{chars}]" ++ "\n"
  | none => ""

def listing (s : Settings) : String := "\n" ++ valueLines s ++ notice s ++ "\n"

theorem run_config {action : Config} {out : String} (hbase : env.base inv = base)
    (hrequest : inv.request = .config action) (h : Run.config base action ⟨t, "", ""⟩ = .ok () ⟨t, out, ""⟩) :
    inv.run env t = ⟨0, out, "", t, false⟩ := by
  have hrun : inv.toRun env ⟨t, "", ""⟩ = .ok .done ⟨t, out, ""⟩ := by
    simp only [Invocation.toRun, hrequest, hbase]
    exact stateBind_of_ok h
  rw [Invocation.run, hrun]

theorem run_get {value : String} (hload : Settings.load t base = .ok s) (hbase : env.base inv = base)
    (hrequest : inv.request = .config (.get key)) (hvalue : s.get? key = some value) :
    inv.run env t = ⟨0, value ++ "\n", "", t, false⟩ := by
  refine run_config hbase hrequest ((stateBind_of_ok (Run.look_eq_ok.mpr ⟨hload, rfl⟩)).trans ?_)
  rw [hvalue, ← @String.empty_append (value ++ "\n")]
  rfl

theorem run_list (hload : Settings.load t base = .ok s) (hbase : env.base inv = base)
    (hrequest : inv.request = .config .list) : inv.run env t = ⟨0, listing s, "", t, false⟩ := by
  refine run_config hbase hrequest ((stateBind_of_ok (Run.look_eq_ok.mpr ⟨hload, rfl⟩)).trans ?_)
  have hout : listing s = "" ++ ("" ++ "\n") ++ valueLines s ++ notice s ++ ("" ++ "\n") := by
    simp only [listing, String.empty_append]
  rw [hout, notice]
  cases s.legacyChars with
  | none =>
    rw [String.append_empty]
    rfl
  | some chars => rfl

/-- The settings that a sequence of runs leaves are the ones that every further run works with. -/
structure Persists (t : Tree) (base : String) (initial : Settings) (runs : List (SetRun base)) (final : Settings) : Prop
    extends Reached t base initial runs final where
  used : ∀ chars, initial.legacyChars = some chars → final.context.name = .chars chars
  told : ∀ env inv key value, Environment.base env inv = base → inv.request = .config (.get key) →
    final.get? key = some value → inv.run env (afterRuns runs t) = ⟨0, value ++ "\n", "", afterRuns runs t, false⟩
  listed : ∀ env inv, Environment.base env inv = base → inv.request = .config .list →
    inv.run env (afterRuns runs t) = ⟨0, listing final, "", afterRuns runs t, false⟩
  spared : ∀ r : SetRun base, (r.outcome (afterRuns runs t)).exitCode ≠ 0 →
    Spared base (afterRuns runs t) (r.outcome (afterRuns runs t)).tree ∧
      ∀ failure, final.set r.key r.value = .error failure → (r.outcome (afterRuns runs t)).tree = afterRuns runs t

/-- Over any sequence of runs that set values the settings can be loaded, with the value that the last
successful one gave to each key. -/
theorem settings_persist (ht : t.WellFormed) (hgrounded : t.Grounded base) (hload : Settings.load t base = .ok initial)
    (runs : List (SetRun base)) : ∃ final, Persists t base initial runs final := by
  obtain ⟨final, h⟩ := exists_reached ht hgrounded hload runs
  refine ⟨final, h, fun chars hchars => ?_, fun env inv key value hbase hrequest hvalue => ?_,
    fun env inv hbase hrequest => ?_, spared_of_failure h.wellFormed h.loaded⟩
  · rw [Settings.context, h.legacyChars, hchars, Option.getD_some]
  · exact run_get h.loaded hbase hrequest hvalue
  · exact run_list h.loaded hbase hrequest

def setRun (base key value : String) : SetRun base :=
  ⟨⟨false, false, some base, .config (.set key value)⟩, noInput, key, value, rfl, rfl⟩

def older : Tree :=
  [(["b"], .directory), (["b", ".cfg"], .file "X_\n".toUTF8)].foldl (fun t (key, entry) => t.put key entry) .empty

theorem older_wellFormed : older.WellFormed := by decide

def marksRuns : List (SetRun "b") :=
  [setRun "b" "output.marks_file" "é\"'\n\x07", setRun "b" "output.marks_file" "a/b", setRun "b" "pattern.letters" "yx"]

theorem settings_persist_older : (older.WellFormed ∧ older.Grounded "b" ∧
      Settings.load older "b" = .ok { Settings.default with legacyChars := some "x_" }) ∧
    ∃ final, Persists older "b" { Settings.default with legacyChars := some "x_" } marksRuns final ∧
      final.get? "output.marks_file" = some "é\"'\n\x07" ∧ final.get? "pattern.letters" = some "yx" ∧
        final.context.name = .chars "x_" := by
  have hgrounded : older.Grounded "b" := Tree.grounded_of_no_up (by decide)
  have hload : Settings.load older "b" = .ok { Settings.default with legacyChars := some "x_" } := by decide +kernel
  obtain ⟨final, h⟩ := settings_persist older_wellFormed hgrounded hload marksRuns
  have hmarks : lastValue "output.marks_file" (succeeded marksRuns older) = some "é\"'\n\x07" := by decide +kernel
  have hletters : lastValue "pattern.letters" (succeeded marksRuns older) = some "yx" := by decide +kernel
  refine ⟨⟨older_wellFormed, hgrounded, hload⟩, final, h, ?_, ?_, h.used _ rfl⟩
  · rw [h.values, hmarks]
    rfl
  · rw [h.values, hletters]
    rfl

/-- Where nothing stands yet, a directory of this name stands behind a missing one. -/
def hidden : Tree :=
  [(["b"], .directory), (["b", ".cfg"], .file ⟨#[255]⟩)].foldl (fun t (key, entry) => t.put key entry) .empty

/-- A directory stays that was made before saving failed; and one that was made uncovers settings that can
not be read. -/
theorem saving_makes_directories :
    ((Settings.load .empty "a/w/.").isOk ∧ ((setRun "a/w/." "output.marks_file" "m.txt").outcome .empty).exitCode = 1 ∧
      Tree.empty.isDirectory "a" = false ∧
        ((setRun "a/w/." "output.marks_file" "m.txt").outcome .empty).tree.isDirectory "a" = true) ∧
    (Settings.load hidden "m/../b").isOk ∧ ((setRun "m/../b" "output.marks_file" "m.txt").outcome hidden).exitCode = 0 ∧
      (Settings.load ((setRun "m/../b" "output.marks_file" "m.txt").outcome hidden).tree "m/../b").isOk = false := by
  decide +kernel

end ContestTests.Command
