import Mathlib.Data.List.Forall2

/-!
# Steps that succeed

A chain of steps succeeds exactly if every step does. These equivalences read the success of a check
as the rules it checked.
-/

namespace ContestTests

variable {first : Except ε α}

theorem bind_eq_ok {next : α → Except ε β} :
    first >>= next = .ok b ↔ ∃ a, first = .ok a ∧ next a = .ok b := by
  cases first <;> simp [bind, Except.bind]

theorem bind_eq_error {next : α → Except ε β} :
    first >>= next = .error e ↔ first = .error e ∨ ∃ a, first = .ok a ∧ next a = .error e := by
  cases first <;> simp [bind, Except.bind]

theorem stateBind_of_ok {w : EStateM ε σ α} {next : α → EStateM ε σ β} {s s₁ : σ} (h : w s = .ok a s₁) :
    (w >>= next) s = next a s₁ := by
  simp only [Bind.bind, EStateM.bind, h]

theorem stateBind_of_error {w : EStateM ε σ α} {next : α → EStateM ε σ β} {s s₁ : σ} (h : w s = .error e s₁) :
    (w >>= next) s = .error e s₁ := by
  simp only [Bind.bind, EStateM.bind, h]

theorem stateBind_eq_ok {w : EStateM ε σ α} {next : α → EStateM ε σ β} {s s' : σ} :
    (w >>= next) s = .ok b s' ↔ ∃ a s₁, w s = .ok a s₁ ∧ next a s₁ = .ok b s' := by
  simp only [Bind.bind, EStateM.bind]
  cases w s with
  | ok a s₁ => simp
  | error e s₁ => simp

theorem stateBind_eq_error {w : EStateM ε σ α} {next : α → EStateM ε σ β} {s s' : σ} :
    (w >>= next) s = .error e s' ↔ w s = .error e s' ∨ ∃ a s₁, w s = .ok a s₁ ∧ next a s₁ = .error e s' := by
  simp only [Bind.bind, EStateM.bind]
  cases w s with
  | ok a s₁ => simp
  | error e s₁ => simp

theorem map_eq_ok {f : α → β} : first.map f = .ok b ↔ ∃ a, first = .ok a ∧ f a = b := by
  cases first <;> simp [Except.map]

theorem mapError_eq_ok {f : ε → ε'} : first.mapError f = .ok a ↔ first = .ok a := by
  cases first <;> simp [Except.mapError]

theorem pure_eq_ok : (pure a : Except ε α) = .ok b ↔ a = b := by
  simp [pure, Except.pure]

theorem isOk_iff : first.isOk ↔ ∃ a, first = .ok a := by
  cases first <;> simp [Except.isOk, Except.toBool]

theorem exists_of_mem_right {R : α → β → Prop} {as : List α} {bs : List β} {b : β} (h : List.Forall₂ R as bs)
    (hb : b ∈ bs) : ∃ a ∈ as, R a b := by
  induction h with
  | nil => cases hb
  | @cons a b' as bs hab h ih =>
    rcases List.mem_cons.mp hb with rfl | hb
    · exact ⟨a, List.mem_cons_self, hab⟩
    · obtain ⟨a', ha', hab'⟩ := ih hb
      exact ⟨a', List.mem_cons_of_mem _ ha', hab'⟩

theorem mapM_eq_ok {f : α → Except ε β} {l : List α} {bs : List β} :
    l.mapM f = .ok bs ↔ List.Forall₂ (fun a b => f a = .ok b) l bs := by
  induction l generalizing bs with
  | nil =>
    rw [List.mapM_nil, pure_eq_ok, List.forall₂_nil_left_iff]
    exact eq_comm
  | cons a l ih =>
    rw [List.mapM_cons, List.forall₂_cons_left_iff]
    simp only [bind_eq_ok, pure_eq_ok, ih]
    constructor
    · rintro ⟨b, hb, bs, hbs, rfl⟩
      exact ⟨b, bs, hb, hbs, rfl⟩
    · rintro ⟨b, bs, hb, hbs, rfl⟩
      exact ⟨b, hb, bs, hbs, rfl⟩

theorem mapM_id_ok (as : List α) : (as.map (@Except.ok ε _)).mapM id = .ok as :=
  mapM_eq_ok.mpr (List.forall₂_map_left_iff.mpr (List.forall₂_same.mpr fun _ _ => rfl))

theorem exists_of_mapM_eq_error {f : α → Except ε β} {l : List α} (h : l.mapM f = .error e) :
    ∃ a ∈ l, f a = .error e := by
  induction l with
  | nil =>
    rw [List.mapM_nil] at h
    cases h
  | cons a l ih =>
    rw [List.mapM_cons, bind_eq_error] at h
    rcases h with h | ⟨b, -, h⟩
    · exact ⟨a, List.mem_cons_self, h⟩
    · rcases bind_eq_error.mp h with h | ⟨bs, -, h⟩
      · obtain ⟨a', ha', h⟩ := ih h
        exact ⟨a', List.mem_cons_of_mem _ ha', h⟩
      · cases h

theorem exists_mapM_eq_error {f : α → Except ε β} {l : List α} (ha : a ∈ l) (h : f a = .error e) :
    ∃ e', l.mapM f = .error e' := by
  cases hl : l.mapM f with
  | error e' => exact ⟨e', rfl⟩
  | ok bs =>
    obtain ⟨b, -, hb⟩ := exists_of_mem_right (mapM_eq_ok.mp hl).flip ha
    rw [h] at hb
    cases hb

theorem forall₂_and_right {R : α → β → Prop} {P : β → Prop} {as : List α} {bs : List β} :
    List.Forall₂ (fun a b => R a b ∧ P b) as bs ↔ List.Forall₂ R as bs ∧ ∀ b ∈ bs, P b := by
  induction as generalizing bs with
  | nil =>
    simp only [List.forall₂_nil_left_iff]
    exact ⟨fun h => ⟨h, by simp [h]⟩, And.left⟩
  | cons a as ih =>
    cases bs with
    | nil => simp
    | cons b bs =>
      simp only [List.forall₂_cons, List.forall_mem_cons, ih]
      exact and_and_and_comm

theorem forall₂_beside {R : α → α' → Prop} {S : α → β → Prop} {S' : α' → β' → Prop} {Q : β → β' → Prop} {as : List α}
    {as' : List α'} {bs : List β} {bs' : List β'} (h : List.Forall₂ R as as') (hs : List.Forall₂ S as bs)
    (hs' : List.Forall₂ S' as' bs') (hq : ∀ {a a' b b'}, R a a' → S a b → S' a' b' → Q b b') :
    List.Forall₂ Q bs bs' := by
  induction h generalizing bs bs' with
  | nil =>
    cases hs
    cases hs'
    exact .nil
  | cons hr _ ih =>
    cases hs with
    | cons hb hbs =>
      cases hs' with
      | cons hb' hbs' => exact .cons (hq hr hb hb') (ih hbs hbs')

end ContestTests
