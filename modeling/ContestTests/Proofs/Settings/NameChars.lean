import ContestTests.Proofs.Settings.Saving
import ContestTests.Proofs.Template.Compiling

/-!
# Characters of task names that are accepted

Characters are accepted if the template that is a name alone compiles with them. A text that closes the class
may change what stands behind the name, where that template has nothing: in verbose mode the rest may be a
comment, and a group that its bounds drop still counts for the ones behind. Main statement: apart from these two,
accepted characters compile in every template.
-/

namespace ContestTests.Settings

open ContestTests.Regex ContestTests.Template
open Pattern (compile)

variable {s s' : Settings} {chars template : String} {letters : Alphabet} {p : Pattern}

def nameAlone : Template := ⟨[([], ⟨.taskName, .required⟩)], []⟩

theorem ofString_probe : Template.ofString probe = .ok nameAlone := by decide +kernel

theorem expression_nameAlone (context : Context) : nameAlone.expression context =
    "(?i)^".toList ++ ('(' :: context.name.expression ++ [')']) ++ ['$'] := by
  rw [expression_eq]
  simp [nameAlone, partText, Placeholder.expression, escape]

theorem compile_probe (h : s.set "pattern.task_name_chars" chars = .ok s') :
    ∃ p, compile ⟨.chars chars, .latin⟩ probe = .ok p := by
  obtain ⟨k, hkey, hvalid, -⟩ := set_eq_ok h
  obtain rfl : Key.nameChars = k := Key.text_injective hkey
  unfold objection? at hvalid
  dsimp only at hvalid
  split at hvalid
  · cases hvalid
  · split at hvalid
    · exact ⟨_, ‹_›⟩
    · cases hvalid

theorem fillsGroup_of_accepted (h : s.set "pattern.task_name_chars" chars = .ok s')
    (hplain : readsPlainly (NameRule.chars chars).expression) : fillsGroup (NameRule.chars chars).expression := by
  obtain ⟨p, hp⟩ := compile_probe h
  obtain ⟨t, ht, hregex, hfields, -⟩ := Pattern.compile_eq_ok hp
  obtain rfl : nameAlone = t := Except.ok.inj (ofString_probe.symm.trans ht)
  rw [expression_nameAlone] at hregex
  refine fillsGroup_of_ofText? hplain hregex ?_
  rw [Pattern.maxCapture_of_compile hp, hfields]
  exact Nat.one_ne_zero

/-- With accepted characters that keep to their group, every template compiles that compiles by default. -/
theorem accepted_chars_compile (hset : s.set "pattern.task_name_chars" chars = .ok s')
    (hplain : readsPlainly (NameRule.chars chars).expression)
    (hp : compile ⟨.chars defaultNameChars, letters⟩ template = .ok p) :
    ∃ p', compile ⟨.chars chars, letters⟩ template = .ok p' ∧ p'.fields = p.fields := by
  obtain ⟨t, ht, hregex, -, -⟩ := Pattern.compile_eq_ok hp
  have hname : (Context.mk (.chars defaultNameChars) letters).name.OneClass := ⟨_, rfl⟩
  have hsound := sound_of_ofText? hname hregex
  have hfills : ∀ part ∈ t.parts, fillsGroup (part.2.expression ⟨.chars chars, letters⟩) := fun part hpart =>
    Pattern.fillsGroup_placeholder (fun _ => fillsGroup_of_accepted hset hplain) (hsound part hpart)
  obtain ⟨p', hp'⟩ := Pattern.exists_compile_of_fillsGroup ht hfills
  exact ⟨p', hp', Pattern.fields_of_compile hp hp'⟩

/-- A name that closes its group, and opens another one for the parenthesis behind it. -/
theorem accepted_chars_compile_closing :
    (∃ s, default.set "pattern.task_name_chars" "a])|(?:[b" = .ok s) ∧
      readsPlainly (NameRule.chars "a])|(?:[b").expression ∧
      (∃ p, compile ⟨.chars defaultNameChars, .latin⟩ "$\x7bTaskName\x7d$\x7bS\x7d-$\x7bTaskName\x7d$[SL]" = .ok p) ∧
      ∃ p, compile ⟨.chars "a])|(?:[b", .latin⟩ "$\x7bTaskName\x7d$\x7bS\x7d-$\x7bTaskName\x7d$[SL]" = .ok p ∧
        p.fields = [.taskName, .groupNumber, .taskName, .testLetter] := by
  have hset : ∃ s, default.set "pattern.task_name_chars" "a])|(?:[b" = .ok s := ⟨_, rfl⟩
  have hplain : readsPlainly (NameRule.chars "a])|(?:[b").expression := by decide +kernel
  have hdefault : ∃ p, compile ⟨.chars defaultNameChars, .latin⟩
      "$\x7bTaskName\x7d$\x7bS\x7d-$\x7bTaskName\x7d$[SL]" = .ok p ∧
        p.fields = [.taskName, .groupNumber, .taskName, .testLetter] := ⟨_, rfl, by decide +kernel⟩
  obtain ⟨s, hs⟩ := hset
  obtain ⟨p, hp, hfields⟩ := hdefault
  obtain ⟨p', hp', hfields'⟩ := accepted_chars_compile hs hplain hp
  exact ⟨⟨s, hs⟩, hplain, ⟨p, hp⟩, p', hp', hfields'.trans hfields⟩

/-- Behind the name the rest of the expression is a comment, with the group of the number in it. -/
theorem accepted_chars_comment :
    (∃ s, default.set "pattern.task_name_chars" "a])(?x)#[c" = .ok s) ∧
      (∃ p, compile .default "$\x7bTaskName\x7d$\x7bS\x7d" = .ok p) ∧
      compile ⟨.chars "a])(?x)#[c", Context.default.letters⟩ "$\x7bTaskName\x7d$\x7bS\x7d" =
        .error ⟨"$\x7bTaskName\x7d$\x7bS\x7d", .extraGroups⟩ :=
  ⟨⟨_, rfl⟩, ⟨_, rfl⟩, rfl⟩

/-- A group that its bounds drop still counts. -/
example : ∃ s, default.set "pattern.task_name_chars" "a])(b)\x7b0\x7d(?:[c" = .ok s ∧
    compile s.context "$\x7bTaskName\x7d$\x7bS\x7d" = .error ⟨"$\x7bTaskName\x7d$\x7bS\x7d", .extraGroups⟩ :=
  ⟨_, rfl, rfl⟩

end ContestTests.Settings
