import ContestTests.Proofs.Regex.Reading
import ContestTests.Proofs.Regex.Tokens

/-!
# Texts that stand alone

A text stands alone if, read on its own, it closes all that it opens and has no groups. Between two
parentheses such a text is the inside of one group, whatever stands around it: every token does there what
it does alone.
-/

namespace ContestTests.Regex

open ContestTests.Text

variable {c : Char} {s t : List Char} {st st' : Reader} {r : Regex}

-- ---------------------------------------------------------------------------
-- Readers inside others
-- ---------------------------------------------------------------------------

/-- The reader inside another one, with the groups that are open there around its own. -/
def Reader.within (st base : Reader) : Reader :=
  { st with outer := st.outer ++ base.outer, groups := base.groups, names := base.names }

theorem apply_within {token : Token} (h : token.apply st = some st') (base : Reader) :
    token.apply (st.within base) = some (st'.within base) := by
  cases token with
  | close =>
    simp only [Token.apply, Reader.closeGroup] at h ⊢
    cases houter : st.outer with
    | nil => simp [houter] at h
    | cons o outer =>
      simp only [houter] at h
      cases h
      simp only [Reader.within, houter]
      rfl
  | repeated least most lazily =>
    simp only [Token.apply, Reader.repeatLast] at h ⊢
    split at h
    · rename_i r parts hparts
      cases h
      simp only [Reader.within, hparts]
    · cases h
  | _ =>
    cases h
    rfl

-- ---------------------------------------------------------------------------
-- Groups of what has been read
-- ---------------------------------------------------------------------------

theorem maxCapture_append (rs rs' : List Regex) :
    (sequence (rs ++ rs')).maxCapture = max (sequence rs).maxCapture (sequence rs').maxCapture := by
  induction rs with
  | nil => exact (Nat.zero_max _).symm
  | cons r rs ih =>
    show max r.maxCapture (sequence (rs ++ rs')).maxCapture = max (max r.maxCapture (sequence rs).maxCapture) _
    rw [ih, Nat.max_assoc]

theorem maxCapture_choice (rs : List Regex) : (choice rs).maxCapture = (sequence rs).maxCapture := by
  induction rs using choice.induct with
  | case1 => rfl
  | case2 r => exact (Nat.max_zero _).symm
  | case3 r more hmore ih =>
    rw [choice]
    · show max r.maxCapture (choice more).maxCapture = max r.maxCapture (sequence more).maxCapture
      rw [ih]
    · exact hmore

theorem maxCapture_reverse (rs : List Regex) : (sequence rs.reverse).maxCapture = (sequence rs).maxCapture := by
  induction rs with
  | nil => rfl
  | cons r rs ih =>
    have hone : (sequence [r]).maxCapture = r.maxCapture := Nat.max_zero _
    rw [List.reverse_cons, maxCapture_append, ih, hone, Nat.max_comm]
    rfl

theorem maxCapture_rounds (r : Regex) (least : Nat) (most : Option Nat) (greedy : Bool) :
    (rounds r least most greedy).maxCapture = if most = some 0 then 0 else r.maxCapture := by
  unfold rounds
  split <;> rfl

def partsCapture (parts : List Part) : Nat := (sequence (parts.filterMap Part.expr?)).maxCapture

theorem maxCapture_branch (st : Reader) : st.branch.maxCapture = partsCapture st.parts := by
  rw [Reader.branch, List.filterMap_reverse, maxCapture_reverse]
  rfl

theorem maxCapture_body (st : Reader) :
    st.body.maxCapture = max (sequence st.branches).maxCapture (partsCapture st.parts) := by
  have hone : (sequence [st.branch]).maxCapture = st.branch.maxCapture := Nat.max_zero _
  rw [Reader.body, maxCapture_choice, maxCapture_append, maxCapture_reverse, hone, maxCapture_branch]

-- ---------------------------------------------------------------------------
-- Readers without groups of their own
-- ---------------------------------------------------------------------------

theorem maxCapture_sequence {rs : List Regex} (h : ∀ r ∈ rs, r.maxCapture = 0) : (sequence rs).maxCapture = 0 := by
  induction rs with
  | nil => rfl
  | cons r rs ih =>
    obtain ⟨hr, hrs⟩ := List.forall_mem_cons.mp h
    show max r.maxCapture (sequence rs).maxCapture = 0
    rw [hr, ih hrs, Nat.max_self]

def Bare (branches : List Regex) (parts : List Part) : Prop :=
  (∀ r ∈ branches, r.maxCapture = 0) ∧ ∀ r, .expr r ∈ parts → r.maxCapture = 0

/-- Nothing that has been read captures, and no open group will. -/
structure Reader.Bare (st : Reader) : Prop where
  here : Regex.Bare st.branches st.parts
  outer : ∀ o ∈ st.outer, o.group = none ∧ Regex.Bare o.branches o.parts

theorem Bare.push {branches : List Regex} {parts : List Part} {r : Regex} (h : Bare branches parts)
    (hr : r.maxCapture = 0) : Bare branches (.expr r :: parts) := by
  refine ⟨h.1, fun r' hr' => ?_⟩
  rcases List.mem_cons.mp hr' with he | hr'
  · cases he
    exact hr
  · exact h.2 r' hr'

theorem Bare.branch (h : Bare st.branches st.parts) : st.branch.maxCapture = 0 := by
  rw [maxCapture_branch]
  refine maxCapture_sequence fun r hr => ?_
  obtain ⟨part, hpart, he⟩ := List.mem_filterMap.mp hr
  cases part with
  | expr r' =>
    cases he
    exact h.2 r hpart
  | switches => cases he

theorem Bare.body (h : Bare st.branches st.parts) : st.body.maxCapture = 0 := by
  rw [maxCapture_body, ← maxCapture_branch, h.branch, maxCapture_sequence h.1, Nat.max_self]

theorem Reader.Bare.apply {token : Token} (hst : st.Bare) (h : token.apply st = some st') : st'.Bare := by
  cases token with
  | group flags =>
    cases h
    refine ⟨⟨by simp [openGroup], by simp [openGroup]⟩, ?_⟩
    exact List.forall_mem_cons.mpr ⟨⟨rfl, hst.here⟩, hst.outer⟩
  | switches flags =>
    cases h
    exact ⟨⟨hst.here.1, by simpa using hst.here.2⟩, hst.outer⟩
  | close =>
    simp only [Token.apply, closeGroup] at h
    split at h
    · cases h
    · rename_i o outer houter
      obtain ⟨⟨hgroup, hbare⟩, hrest⟩ := List.forall_mem_cons.mp (houter ▸ hst.outer)
      simp only [hgroup] at h
      cases h
      exact ⟨hbare.push hst.here.body, hrest⟩
  | branch =>
    cases h
    exact ⟨⟨List.forall_mem_cons.mpr ⟨hst.here.branch, hst.here.1⟩, by simp [nextBranch]⟩, hst.outer⟩
  | char set folded =>
    cases h
    exact ⟨hst.here.push rfl, hst.outer⟩
  | look condition =>
    cases h
    exact ⟨hst.here.push rfl, hst.outer⟩
  | repeated least most lazily =>
    simp only [Token.apply, repeatLast] at h
    split at h
    · rename_i r parts hparts
      cases h
      have hbare := hst.here
      rw [hparts] at hbare
      have hr : r.maxCapture = 0 := hbare.2 r List.mem_cons_self
      have hrest : Regex.Bare st.branches parts := ⟨hbare.1, fun r' hr' => hbare.2 r' (List.mem_cons_of_mem _ hr')⟩
      exact ⟨hrest.push (by rw [maxCapture_rounds, hr, ite_self]), hst.outer⟩
    · cases h

-- ---------------------------------------------------------------------------
-- Reading alone
-- ---------------------------------------------------------------------------

/-- Reads a text on its own. It fails at a group with a number and in verbose mode, where a comment could
hide the closing parenthesis behind the text. -/
def readAlone : Nat → Reader → List Char → Option Reader
  | 0, _, _ => none
  | fuel + 1, st, s =>
    if st.flags.verbose ∨ st.groups ≠ 0 then none
    else match s with
      | [] => some st
      | c :: rest =>
        match readToken st c rest with
        | none => none
        | some (st, after) => readAlone fuel st after

def Reader.alone : Reader := { start with flags := ignoringCase }

/-- Read on its own, the text closes what it opens and has no groups. -/
def standsAlone (s : List Char) : Bool :=
  (readAlone (s.length + 1) .alone s).any fun st => st.outer.isEmpty

theorem readAlone_start (h : readAlone fuel st s = some st') : st.flags.verbose = false ∧ st.groups = 0 := by
  unfold readAlone at h
  split at h
  · cases h
  · split at h
    · cases h
    · rename_i hst
      simpa using hst

theorem readAlone_nil (h : readAlone fuel st [] = some st') : st' = st := by
  cases fuel with
  | zero => cases h
  | succ fuel =>
    obtain ⟨hverbose, hgroups⟩ := readAlone_start h
    simp only [readAlone, hverbose, hgroups] at h
    exact (by simpa using h : st = st').symm

theorem readAlone_cons (h : readAlone (fuel + 1) st (c :: s) = some st') :
    ∃ next after, readToken st c s = some (next, after) ∧ readAlone fuel next after = some st' := by
  obtain ⟨hverbose, hgroups⟩ := readAlone_start h
  simp only [readAlone, hverbose, hgroups] at h
  cases htoken : readToken st c s with
  | none => simp [htoken] at h
  | some r => exact ⟨r.1, r.2, rfl, by simpa [htoken] using h⟩

/-- A text that is read on its own is read the same inside a group, up to the parenthesis that closes it. -/
theorem readAlone_within (h : readAlone fuel st s = some st') : st'.flags.verbose = false ∧
    (st.Bare → st'.Bare) ∧ ∃ n ≤ s.length, ∀ base fuel t,
      readTokens (fuel + n) (st.within base) (s ++ ')' :: t) = readTokens fuel (st'.within base) (')' :: t) := by
  induction fuel generalizing st s with
  | zero => cases h
  | succ fuel ih =>
    obtain ⟨hverbose, hgroups⟩ := readAlone_start h
    cases s with
    | nil =>
      obtain rfl := readAlone_nil h
      exact ⟨hverbose, id, 0, Nat.le_refl 0, fun _ _ _ => rfl⟩
    | cons c s =>
      obtain ⟨next, after, htoken, hmore⟩ := readAlone_cons h
      obtain ⟨hnext, hbare, n, hn, hread⟩ := ih hmore
      obtain ⟨token, hreads⟩ := readToken_eq_some hverbose htoken ((readAlone_start hmore).2.trans hgroups.symm)
      -- The token does inside the group what it does alone.
      refine ⟨hnext, fun hst => hbare (hst.apply hreads.applies), n + 1, ?_, fun base fuel t => ?_⟩
      · have := hreads.suffix.length_le
        rw [List.length_cons]
        omega
      · have hinside : readToken (st.within base) c (s ++ ')' :: t) = some (next.within base, after ++ ')' :: t) := by
          rw [hreads.spelled _ hverbose (st.within base) t rfl, apply_within hreads.applies base]
          rfl
        rw [List.cons_append, ← Nat.add_assoc, readTokens_step (st.within base) hverbose hinside, hread]

theorem start_of_readAlone (h : readAlone fuel st s = some st') (hst : st.parts = []) (t : List Char) :
    (s ++ ')' :: t).head? ≠ some '?' := by
  rcases s with _ | ⟨c, s⟩
  · simp
  · rintro hc
    obtain rfl : c = '?' := by simpa using hc
    cases fuel with
    | zero => cases h
    | succ fuel =>
      obtain ⟨next, after, htoken, -⟩ := readAlone_cons h
      simp [readToken, Reader.repeatLast, hst] at htoken

theorem inside_of_standsAlone (h : standsAlone s) : ∃ r, Inside s r ∧ r.maxCapture = 0 := by
  obtain ⟨st', hread, houter⟩ := (Option.any_eq_true _ _).mp h
  obtain ⟨hverbose, hbare, n, hn, hinside⟩ := readAlone_within hread
  have hstart : Reader.alone.Bare := ⟨⟨by simp [Reader.alone, Reader.start], by simp [Reader.alone, Reader.start]⟩,
    by simp [Reader.alone, Reader.start]⟩
  refine ⟨st'.body, ⟨start_of_readAlone hread rfl, fun st hst hbranches hparts => ?_⟩, (hbare hstart).here.body⟩
  have hopen : st = Reader.alone.within st := by
    obtain ⟨flags, branches, parts, outer, groups, names⟩ := st
    cases hst
    cases hbranches
    cases hparts
    rfl
  refine ⟨n, hn, st'.within st, ⟨hverbose, rfl⟩, ⟨?_, rfl, rfl⟩, fun fuel t => ?_⟩
  · show st'.outer ++ st.outer = st.outer
    rw [List.isEmpty_iff.mp houter, List.nil_append]
  · rw [← hinside st fuel t, ← hopen]

-- ---------------------------------------------------------------------------
-- Classes and escaped text
-- ---------------------------------------------------------------------------

variable {op : Char} {body : List Char} {members : CharSet}

theorem readAlone_end (hst : st.flags = ignoringCase) (hgroups : st.groups = 0) :
    readAlone (fuel + 1) st [] = some st := by
  simp [readAlone, hst, hgroups, ignoringCase, Flags.none]

theorem readAlone_step (hst : st.flags = ignoringCase) (hgroups : st.groups = 0)
    (h : readToken st c s = some (st', t)) : readAlone (fuel + 1) st (c :: s) = readAlone fuel st' t := by
  simp [readAlone, hst, hgroups, ignoringCase, Flags.none, h]

/-- A text that opens and closes nothing, wherever it is read on its own. -/
def AddsParts (s : List Char) : Prop :=
  ∀ st : Reader, st.flags = ignoringCase → st.groups = 0 → ∃ rs, readAlone (s.length + 1) st s = some (st.extend rs 0)

theorem AddsParts.standsAlone (h : AddsParts s) : standsAlone s := by
  obtain ⟨rs, hread⟩ := h .alone rfl rfl
  rw [Regex.standsAlone, hread]
  rfl

theorem addsParts_class (h : readClass false (body ++ [']']) = some (members, [])) : AddsParts ('[' :: body ++ [']']) := by
  intro st hst hgroups
  have hclass : readToken st '[' (body ++ [']']) = some (st.extend [.char members true] 0, []) :=
    readToken_class hst h []
  have hlen : ('[' :: body ++ [']']).length + 1 = body.length + 2 + 1 := by simp
  rw [hlen]
  exact ⟨_, (readAlone_step hst hgroups hclass).trans (readAlone_end hst hgroups)⟩

theorem readToken_repeat (hst : st.flags = ignoringCase) (hop : op ∈ ['+', '*', '?']) (r : Regex) :
    ∃ r', readToken (st.extend [r] 0) op [] = some (st.extend [r'] 0, []) := by
  simp only [List.mem_cons, List.not_mem_nil, or_false] at hop
  rcases hop with rfl | rfl | rfl <;>
    exact ⟨_, by simp only [readToken, readLazy, Reader.repeatLast, Reader.extend, hst]; rfl⟩

theorem addsParts_repeated (h : readClass false (body ++ [']']) = some (members, [])) (hop : op ∈ ['+', '*', '?']) :
    AddsParts ('[' :: body ++ [']', op]) := by
  intro st hst hgroups
  have hclass : readToken st '[' (body ++ ']' :: [op]) = some (st.extend [.char members true] 0, [op]) :=
    readToken_class hst h [op]
  obtain ⟨r, hrepeat⟩ := readToken_repeat hst hop (.char members true)
  have htext : '[' :: body ++ [']', op] = '[' :: (body ++ ']' :: [op]) := by simp
  have hlen : ('[' :: body ++ [']', op]).length + 1 = body.length + 1 + 1 + 1 + 1 := by simp
  rw [hlen, htext]
  exact ⟨_, ((readAlone_step hst hgroups hclass).trans (readAlone_step hst hgroups hrepeat)).trans
    (readAlone_end hst hgroups)⟩

theorem readAlone_escape (hst : st.flags = ignoringCase) (hgroups : st.groups = 0) (s : List Char) (fuel : Nat) :
    readAlone (fuel + 1 + s.length) st (escape s) = some (st.extend (s.map literalChar) 0) := by
  induction s generalizing st with
  | nil => exact readAlone_end hst hgroups
  | cons c s ih =>
    obtain ⟨d, more, he, htoken⟩ := readToken_escape (verbose_of_ignoringCase hst) c
    rw [escape_cons, he, List.length_cons, ← Nat.add_assoc, List.cons_append,
      readAlone_step hst hgroups (htoken (escape s)), literal_eq_extend hst, @ih (st.extend [literalChar c] 0) hst hgroups]
    simp

theorem addsParts_escape (s : List Char) : AddsParts (escape s) := by
  intro st hst hgroups
  have hlen := length_le_escape s
  have hfuel : (escape s).length + 1 = (escape s).length - s.length + 1 + s.length := by omega
  rw [hfuel]
  exact ⟨_, readAlone_escape hst hgroups s _⟩

end ContestTests.Regex
