import ContestTests.Proofs.Success
import ContestTests.Template.Basic

/-!
# Literals and placeholders

A template that is read is spelled by its parts: nothing of the text is lost, and no opening of a
placeholder is left in a literal.
-/

namespace ContestTests.Template

variable {s literal behind name rest : List Char} {t : Template}

theorem findOpening_eq_some (h : findOpening s = some (literal, presence, behind)) :
    s = literal ++ '$' :: presence.opening :: behind ∧ findOpening literal = none := by
  induction s using findOpening.induct generalizing literal with
  | case1 rest =>
    cases h
    exact ⟨rfl, rfl⟩
  | case2 rest =>
    cases h
    exact ⟨rfl, rfl⟩
  | case3 c rest hrequired hoptional ih =>
    rw [findOpening] at h
    · obtain ⟨⟨before, found⟩, hfound, he⟩ := Option.map_eq_some_iff.mp h
      cases he
      obtain ⟨rfl, hnone⟩ := ih hfound
      refine ⟨rfl, ?_⟩
      rw [findOpening, hnone]
      · rfl
      · rintro more rfl rfl
        exact hrequired _ rfl rfl
      · rintro more rfl rfl
        exact hoptional _ rfl rfl
    · exact hrequired
    · exact hoptional
  | case4 => cases h

theorem cutAtChar_eq_some (h : cutAtChar c s = some (name, rest)) : s = name ++ c :: rest := by
  induction s generalizing name with
  | nil => cases h
  | cons d s ih =>
    rw [cutAtChar] at h
    split at h
    · rename_i hd
      cases h
      rw [hd]
      rfl
    · obtain ⟨⟨before, after⟩, hcut, he⟩ := Option.map_eq_some_iff.mp h
      cases he
      rw [ih hcut]
      rfl

theorem ofName?_eq_some (h : Field.ofName? name = some field) : field.name.toList = name := by
  simpa using List.find?_some h

theorem toText_cons (part : List Char × Placeholder) (t : Template) :
    toText { t with parts := part :: t.parts } = part.1 ++ part.2.text ++ t.toText := by
  simp [toText]

/-- No literal holds an opening, and what may not be left out is not. -/
structure Plain (t : Template) : Prop where
  parts : ∀ part ∈ t.parts, findOpening part.1 = none ∧ part.2.allowed
  tail : findOpening t.tail = none

theorem readParts_eq_ok (h : readParts fuel offset s = .ok t) (hfuel : s.length < fuel) :
    t.toText = s ∧ t.Plain := by
  induction fuel generalizing offset s t with
  | zero => omega
  | succ fuel ih =>
    rw [readParts] at h
    split at h
    · rename_i hnone
      cases h
      exact ⟨rfl, by simp, hnone⟩
    · rename_i literal presence behind hopening
      obtain ⟨rfl, hliteral⟩ := findOpening_eq_some hopening
      dsimp only at h
      split at h
      · cases h
      rename_i name rest hcut
      obtain rfl := cutAtChar_eq_some hcut
      split at h
      · cases h
      rename_i field hfield
      split at h
      · obtain ⟨t', hread, rfl⟩ := map_eq_ok.mp h
        obtain ⟨htext, hplain⟩ := ih hread (by
          simp only [List.length_append, List.length_cons] at hfuel
          omega)
        refine ⟨?_, List.forall_mem_cons.mpr ⟨⟨hliteral, ‹_›⟩, hplain.parts⟩, hplain.tail⟩
        rw [toText_cons, htext, Placeholder.text, ofName?_eq_some hfield]
        simp
      · cases h

theorem ofString_eq_ok {s : String} (h : ofString s = .ok t) : t.toText = s.toList ∧ t.Plain :=
  readParts_eq_ok h (Nat.lt_succ_self _)

end ContestTests.Template
