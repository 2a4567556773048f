import ContestTests.Proofs.Regex.Filling
import ContestTests.Proofs.Template.Covering

/-!
# Templates that compile

A template compiles where the expression of every placeholder fills its group: between two parts all groups
are closed, and there are as many with a number as placeholders before. Only names can have an expression
that does not, and letters without an alphabet.
-/

namespace ContestTests.Pattern

open ContestTests.Regex ContestTests.Template

variable {context : Context} {parts : List (List Char × Placeholder)} {template : String} {t : Template}
  {st : Reader} {k : Nat}

-- ---------------------------------------------------------------------------
-- Reading parts
-- ---------------------------------------------------------------------------

theorem fillsGroup_placeholder {p : Placeholder} (hname : p.field = .taskName → fillsGroup context.name.expression)
    (hp : p.Sound context) : fillsGroup (p.expression context) := by
  by_cases hfield : p.field = .taskName
  · rw [expression_taskName hfield]
    exact hname hfield
  · exact (addsParts_test hfield hp).fillsGroup

theorem reads_parts (h : ∀ part ∈ parts, fillsGroup (part.2.expression context)) (hst : st.Behind k) :
    ∃ st', st'.Behind (k + parts.length) ∧ Reads (parts.flatMap (partText context)) st st' := by
  induction parts generalizing st k with
  | nil => exact ⟨st, hst, Reads.nil st⟩
  | cons part parts ih =>
    obtain ⟨hpart, hparts⟩ := List.forall_mem_cons.mp h
    obtain ⟨literal, hliteral, hread⟩ := reads_escape_behind hst part.1
    obtain ⟨group, hgroup, hread'⟩ := reads_group hpart hliteral
    obtain ⟨st', hst', hmore⟩ := ih hparts hgroup
    have hcount : k + 1 + parts.length = k + (part :: parts).length := by
      rw [List.length_cons]
      omega
    have htext : (part :: parts).flatMap (partText context) = escape part.1 ++
        ('(' :: part.2.expression context ++ [')']) ++ parts.flatMap (partText context) := by simp [partText]
    rw [htext]
    exact ⟨st', hcount ▸ hst', (hread.append hread').append hmore⟩

theorem exists_regex (h : ∀ part ∈ t.parts, fillsGroup (part.2.expression context)) :
    ∃ r, ofText? (t.expression context) = some r ∧ r.maxCapture = t.fields.length := by
  obtain ⟨st, hst, hread⟩ := reads_parts h behind_anchored
  obtain ⟨st', hst', hread'⟩ := reads_escape_behind hst t.tail
  obtain ⟨r, hr, hgroups⟩ := ofText?_behind (hread.append hread') hst'
  rw [expression_eq, Template.fields, List.length_map]
  exact ⟨r, hr, hgroups.trans (Nat.zero_add _)⟩

-- ---------------------------------------------------------------------------
-- Compiling
-- ---------------------------------------------------------------------------

theorem exists_compile_of_fillsGroup (ht : Template.ofString template = .ok t)
    (h : ∀ part ∈ t.parts, fillsGroup (part.2.expression context)) : ∃ p, compile context template = .ok p := by
  obtain ⟨r, hr, hgroups⟩ := exists_regex h
  have hcompile : compile context template =
      .ok ⟨template, String.ofList (t.expression context), t.fields, r, context.letters⟩ := by
    simp only [compile, ht, hr, hgroups, if_true]
  exact ⟨_, hcompile⟩

/-- Every template compiles where names are of one class, and letters have an alphabet. -/
theorem exists_compile (hname : context.name.OneClass) (ht : Template.ofString template = .ok t)
    (hsound : ∀ part ∈ t.parts, part.2.Sound context) : ∃ p, compile context template = .ok p :=
  exists_compile_of_fillsGroup ht fun part hpart =>
    fillsGroup_placeholder (fun _ => (addsParts_nameRule hname).fillsGroup) (hsound part hpart)

theorem maxCapture_of_compile {p : Pattern} (h : compile context template = .ok p) :
    p.regex.maxCapture = p.fields.length := by
  rw [compile] at h
  split at h
  · cases h
  dsimp only at h
  split at h
  · cases h
  split at h
  · cases h
    assumption
  · cases h

end ContestTests.Pattern
