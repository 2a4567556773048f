import ContestTests.Proofs.Regex.Reading

/-!
# Brackets that never close

A class without letters does not end at its own closing bracket. Whatever a template puts behind
it (escaped text, groups, whole classes) closes all brackets that it opens and no other, so the
expression is none.
-/

namespace ContestTests.Regex

open ContestTests.Text

variable {c : Char} {s t u body : List Char} {members : CharSet} {current parent : OpenSet}
  {outer : List OpenSet}

/-- A text in which a bracket that is open before it stays open to the end. -/
structure Unclosed (s : List Char) : Prop where
  head : ∃ d more, s = d :: more ∧ d ≠ '-'
  never : ∀ fuel current outer, current.edge = .body → classLoop false fuel current outer s = none

def Inert (s : List Char) : Prop := ∀ t, Unclosed t → Unclosed (s ++ t)

theorem Inert.nil : Inert [] := fun _ h => h

theorem Inert.append (hs : Inert s) (ht : Inert t) : Inert (s ++ t) := by
  intro u hu
  rw [List.append_assoc]
  exact hs _ (ht u hu)

theorem inert_flatMap {f : α → List Char} {xs : List α} (h : ∀ x ∈ xs, Inert (f x)) :
    Inert (xs.flatMap f) := by
  induction xs with
  | nil => exact Inert.nil
  | cons x xs ih =>
    rw [List.flatMap_cons]
    exact (h x List.mem_cons_self).append (ih fun y hy => h y (List.mem_cons_of_mem _ hy))

/-- A step inside the bracket that keeps the stack below leads to a text that does not close it. -/
theorem classLoop_none (hstep : ∀ current outer, current.edge = .body →
      ∃ next more, next.edge = .body ∧
        classStep false current outer s = some (.inr (next, more), t))
    (ht : Unclosed t) (hb : current.edge = .body) (fuel : Nat) :
    classLoop false fuel current outer s = none := by
  cases fuel with
  | zero => rfl
  | succ fuel =>
    obtain ⟨next, more, he, hs⟩ := hstep current outer hb
    rw [classLoop, hs]
    exact ht.never fuel next more he

theorem inert_plain (hc : isClassPlain c) : Inert [c] := by
  intro t ht
  obtain ⟨d, more, rfl, hd⟩ := ht.head
  refine ⟨⟨c, _, rfl, ne_of_isClassPlain hc rfl⟩, fun fuel current outer hb => ?_⟩
  exact classLoop_none (fun current outer _ => ⟨_, _, rfl, classStep_plain hc hd outer more⟩) ht hb fuel

theorem inert_escape (s : List Char) : Inert (escape s) := by
  refine inert_flatMap fun c _ t ht => ?_
  obtain ⟨d, more, rfl, hd⟩ := ht.head
  obtain ⟨e, rest, he, hne, -⟩ := head_escape (s := [c]) (by simp)
  have hcons : (if isMeta c then ['\\', c] else [c]) = escape [c] := by simp [escape]
  rw [hcons]
  refine ⟨⟨e, rest ++ d :: more, by rw [he]; rfl, hne⟩, fun fuel current outer hb => ?_⟩
  exact classLoop_none (fun current outer _ => ⟨_, _, rfl, classStep_escape c hd more⟩) ht hb fuel

theorem unclosed_textEnd : Unclosed ['$'] := by
  refine ⟨⟨'$', [], rfl, by decide⟩, fun fuel current outer _ => ?_⟩
  cases fuel with
  | zero => rfl
  | succ fuel =>
    rw [classLoop, classStep_item (by simp [OpenSet.TakesLiterally]) (by decide) (by decide) (.inl rfl)]
    rfl

-- ---------------------------------------------------------------------------
-- Classes without letters
-- ---------------------------------------------------------------------------

theorem inert_noLetters : Inert ['[', ']'] := by
  intro t ht
  refine ⟨⟨'[', _, rfl, by decide⟩, fun fuel current outer _ => ?_⟩
  rcases fuel with _ | _ | fuel
  · rfl
  · rw [classLoop, List.cons_append, classStep_open]
    rfl
  · rw [classLoop, List.cons_append, classStep_open, List.cons_append, readAsciiClass_of_ne (by decide)]
    exact ht.never fuel _ _ rfl

theorem readClass_noLetters (ht : Unclosed t) : readClass false (']' :: t) = none := by
  have hfirst : openSet false (']' :: t) = (⟨false, none, .empty, .start⟩, ']' :: t) := rfl
  rw [readClass, hfirst]
  exact ht.never (t.length + 1) _ [] rfl

-- ---------------------------------------------------------------------------
-- Whole classes
-- ---------------------------------------------------------------------------

/-- What a step inside a bracket gives when more brackets are open around it. -/
def underneath (parent : OpenSet) (below : List OpenSet) :
    CharSet ⊕ (OpenSet × List OpenSet) → OpenSet × List OpenSet
  | .inl members => (parent.add members .body, below)
  | .inr (current, outer) => (current, outer ++ parent :: below)

theorem classStep_underneath (h : classStep false current outer s = some (x, t)) (parent : OpenSet)
    (below : List OpenSet) :
    classStep false current (outer ++ parent :: below) s =
      some (.inr (underneath parent below x), t) := by
  cases s with
  | nil => cases h
  | cons c s =>
    by_cases hlit : current.TakesLiterally c
    · obtain ⟨next, hnext⟩ := classStep_literal hlit
      rw [hnext] at h ⊢
      cases h
      rfl
    by_cases hopen : c = '['
    · subst hopen
      rw [classStep_open] at h ⊢
      cases ha : readAsciiClass s with
      | some r =>
        simp only [ha] at h ⊢
        cases h
        rfl
      | none =>
        simp only [ha] at h ⊢
        cases h
        rfl
    by_cases hclose : c = ']'
    · subst hclose
      have he : current.edge ≠ .start := fun he => hlit (.inr ⟨rfl, he⟩)
      rw [classStep_close he] at h ⊢
      cases outer <;> cases h <;> rfl
    by_cases ho : setOp? c = none ∨ s.head? ≠ some c
    · rw [classStep_item hlit hopen hclose ho] at h ⊢
      obtain ⟨r, hr, he⟩ := Option.map_eq_some_iff.mp h
      cases he
      rw [hr]
      rfl
    · obtain ⟨hop, hd⟩ := not_or.mp ho
      obtain ⟨op, hop⟩ := Option.ne_none_iff_exists'.mp hop
      cases s with
      | nil => simp at hd
      | cons d s =>
        obtain rfl : d = c := by simpa using hd
        rw [classStep_operator hlit hop] at h ⊢
        cases h
        rfl

/-- An inner class closes at its own bracket and leaves the bracket around it open. -/
theorem classLoop_underneath (outer : List OpenSet) (h : classLoop false fuel current outer s = some (members, t))
    (hu : Unclosed (t ++ u)) (fuel' : Nat) (below : List OpenSet) :
    classLoop false fuel' current (outer ++ parent :: below) (s ++ u) = none := by
  induction fuel generalizing current outer s fuel' with
  | zero => cases h
  | succ fuel ih =>
    have hm : ']' ∈ s := (classLoop_steady h).1
    cases fuel' with
    | zero => rfl
    | succ fuel' =>
      rw [classLoop] at h
      cases hstep : classStep false current outer s with
      | none => simp [hstep] at h
      | some r =>
        obtain ⟨x, after⟩ := r
        simp only [hstep] at h
        rw [classLoop, (classStep_steady (classStep_underneath hstep parent below)).before hm u]
        cases x with
        | inl closed =>
          cases h
          exact hu.never fuel' _ below rfl
        | inr next => exact ih _ h fuel'

theorem isClassPlain_of_isAlpha (h : c.isAlpha) : isClassPlain c := by
  unfold isClassPlain
  split
  all_goals first | rfl | cases h

theorem readAsciiName_eq_some (h : readAsciiName negated s = some (members, t)) :
    ∃ name, s = name ++ ':' :: ']' :: t ∧ ∀ c ∈ name, isClassPlain c := by
  rw [readAsciiName] at h
  split at h
  · rename_i after heq
    obtain ⟨set, -, he⟩ := Option.map_eq_some_iff.mp h
    cases he
    refine ⟨s.takeWhile Char.isAlpha, ?_, fun c hc => ?_⟩
    · rw [← heq, List.takeWhile_append_dropWhile]
    · exact isClassPlain_of_isAlpha (List.all_eq_true.mp List.all_takeWhile c hc)
  · cases h

theorem readAsciiClass_eq_some (h : readAsciiClass s = some (members, t)) :
    ∃ letters, s = ':' :: letters ++ ']' :: t ∧ ∀ c ∈ ':' :: letters, isClassPlain c := by
  cases s with
  | nil => cases h
  | cons c s =>
    obtain rfl : c = ':' := Classical.byContradiction fun hc => by
      rw [readAsciiClass_of_ne hc] at h
      cases h
    rw [readAsciiClass_colon] at h
    split at h
    · rename_i hcaret
      obtain ⟨more, rfl⟩ := List.head?_eq_some_iff.mp hcaret
      obtain ⟨name, hs, hname⟩ := readAsciiName_eq_some h
      rw [List.tail_cons] at hs
      subst hs
      refine ⟨'^' :: name ++ [':'], by simp, ?_⟩
      simpa [or_imp, forall_and, isClassPlain] using hname
    · obtain ⟨name, rfl, hname⟩ := readAsciiName_eq_some h
      refine ⟨name ++ [':'], by simp, ?_⟩
      simpa [or_imp, forall_and, isClassPlain] using hname

/-- An ASCII class is also a class of its own, which ends at the same bracket. -/
theorem readClass_asciiClass (h : readAsciiClass s = some (members, t)) :
    ∃ members', readClass false s = some (members', t) := by
  obtain ⟨letters, rfl, hplain⟩ := readAsciiClass_eq_some h
  have hopen : openSet false (':' :: letters ++ ']' :: t) =
      (⟨false, none, .empty, .start⟩, ':' :: letters ++ ']' :: t) := by
    rw [List.cons_append, openSet_cons, if_neg (by decide)]
  have hfuel : (':' :: letters ++ ']' :: t).length + 1 = t.length + 1 + 1 + (':' :: letters).length := by
    simp only [List.length_append, List.length_cons]
    omega
  rw [readClass, hopen]
  simp only [hfuel]
  rw [classLoop_plain hplain (by decide), classLoop,
    classStep_close (by rw [addLetters_edge (by simp)]; decide)]
  exact ⟨_, rfl⟩

theorem inert_class (h : readClass false (body ++ [']']) = some (members, [])) :
    Inert ('[' :: body ++ [']']) := by
  intro t ht
  refine ⟨⟨'[', _, rfl, by decide⟩, fun fuel current outer _ => ?_⟩
  cases fuel with
  | zero => rfl
  | succ fuel =>
    have htext : '[' :: body ++ [']'] ++ t = '[' :: (body ++ [']'] ++ t) := by simp
    rw [htext, classLoop, classStep_open, readAsciiClass_append (by simp) t]
    cases ha : readAsciiClass (body ++ [']']) with
    | some r =>
      obtain ⟨ascii, after⟩ := r
      obtain ⟨members', hc⟩ := readClass_asciiClass ha
      rw [h] at hc
      cases hc
      exact ht.never fuel _ outer rfl
    | none =>
      rw [openSet_append (by simp) t]
      exact classLoop_underneath [] h ht fuel outer

-- ---------------------------------------------------------------------------
-- Whole texts
-- ---------------------------------------------------------------------------

/-- A class without letters makes the whole text no expression. -/
theorem ofText?_noLetters (h : Reads s .anchored (Reader.anchored.extend rs n)) (ht : Unclosed t) :
    ofText? ("(?i)^".toList ++ (s ++ '(' :: '[' :: ']' :: t)) = none := by
  obtain ⟨m, hm, hs⟩ := h
  obtain ⟨fuel, hfuel⟩ : ∃ fuel, (s ++ '(' :: '[' :: ']' :: t).length + 4 = fuel + 1 + 1 + m :=
    ⟨s.length - m + t.length + 5, by simp; omega⟩
  have hopen : readToken (Reader.anchored.extend rs n) '(' ('[' :: ']' :: t) =
      some ((Reader.anchored.extend rs n).openCapture, '[' :: ']' :: t) :=
    readToken_capture rfl (by simp)
  have hclass : readToken (Reader.anchored.extend rs n).openCapture '[' (']' :: t) = none := by
    show Option.map _ (readClass false (']' :: t)) = none
    rw [readClass_noLetters ht]
    rfl
  have hstuck : readTokens (fuel + 1) (Reader.anchored.extend rs n).openCapture
      ('[' :: ']' :: t) = none := readTokens_stop rfl hclass
  rw [ofText?_eq_anchored, hfuel, hs, readTokens_step _ rfl hopen, hstuck]
  rfl

end ContestTests.Regex
