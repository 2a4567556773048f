import ContestTests.Proofs.Regex.Alone
import Mathlib.Data.List.Forall2

/-!
# Texts that fill their group

A text fills its group if, read between the parentheses of a group, it ends with all groups closed and that
group is still there. Such a text need not stand alone: it may close the group, go on behind it, and open
another one, without a number, for the parenthesis that follows. What it does is the same behind any other
groups and under any switches but verbose mode. The two readings are followed side by side.
-/

namespace ContestTests.Regex

open ContestTests.Text

variable {c : Char} {s t : List Char} {st st' a a' b : Reader} {r : Regex} {rs : List Regex} {k : Nat}

-- ---------------------------------------------------------------------------
-- Readers side by side
-- ---------------------------------------------------------------------------

/-- The greatest number of a group, where only one group has a number, and the same behind `k` others. -/
def Numbered (k m m' : Nat) : Prop := m' ≤ k + 1 ∧ (m = 0 ↔ m' ≤ k)

theorem numbered_zero (h : m ≤ k) : Numbered k 0 m := by
  unfold Numbered
  omega

theorem Numbered.max {m m' n n' : Nat} (h : Numbered k m m') (h' : Numbered k n n') :
    Numbered k (max m n) (max m' n') := by
  unfold Numbered at *
  omega

/-- Parts of one group, and the same parts behind others that stood before and capture nothing new. -/
inductive PartsMirror (k : Nat) : List Part → List Part → Prop
  | nil {parts' : List Part} (h : partsCapture parts' ≤ k) : PartsMirror k [] parts'
  | expr {r r' : Regex} {parts parts' : List Part} (hr : Numbered k r.maxCapture r'.maxCapture)
      (h : PartsMirror k parts parts') : PartsMirror k (.expr r :: parts) (.expr r' :: parts')
  | switches {parts parts' : List Part} (h : PartsMirror k parts parts') :
      PartsMirror k (.switches :: parts) (.switches :: parts')

theorem PartsMirror.numbered {parts parts' : List Part} (h : PartsMirror k parts parts') :
    Numbered k (partsCapture parts) (partsCapture parts') := by
  induction h with
  | nil h => exact numbered_zero h
  | expr hr h ih => exact hr.max ih
  | switches h ih => exact ih

structure LevelMirror (k : Nat) (branches : List Regex) (parts : List Part) (branches' : List Regex)
    (parts' : List Part) : Prop where
  branches : Numbered k (sequence branches).maxCapture (sequence branches').maxCapture
  parts : PartsMirror k parts parts'

theorem levelMirror_nil (k : Nat) : LevelMirror k [] [] [] [] :=
  ⟨numbered_zero (Nat.zero_le k), .nil (Nat.zero_le k)⟩

theorem LevelMirror.push {branches branches' : List Regex} {parts parts' : List Part} {r r' : Regex}
    (h : LevelMirror k branches parts branches' parts') (hr : Numbered k r.maxCapture r'.maxCapture) :
    LevelMirror k branches (.expr r :: parts) branches' (.expr r' :: parts') :=
  ⟨h.branches, .expr hr h.parts⟩

structure OuterMirror (k : Nat) (o o' : Outer) : Prop where
  verbose : o.flags.verbose = false ∧ o'.flags.verbose = false
  group : o.group = none ∧ o'.group = none ∨ o.group = some 1 ∧ o'.group = some (k + 1)
  level : LevelMirror k o.branches o.parts o'.branches o'.parts

/-- A reader, and one that has read the same behind `k` groups. -/
structure Mirror (k : Nat) (a b : Reader) : Prop where
  verbose : a.flags.verbose = b.flags.verbose
  level : LevelMirror k a.branches a.parts b.branches b.parts
  outer : List.Forall₂ (OuterMirror k) a.outer b.outer

theorem Mirror.body (h : Mirror k a b) : Numbered k a.body.maxCapture b.body.maxCapture := by
  rw [maxCapture_body, maxCapture_body]
  exact h.level.branches.max h.level.parts.numbered

theorem Mirror.push {r r' : Regex} (h : Mirror k a b) (hr : Numbered k r.maxCapture r'.maxCapture) :
    Mirror k (a.push r) (b.push r') :=
  ⟨h.verbose, h.level.push hr, h.outer⟩

theorem Numbered.capture {r r' : Regex} (h : Numbered k r.maxCapture r'.maxCapture) :
    Numbered k (Regex.capture 1 r).maxCapture (Regex.capture (k + 1) r').maxCapture := by
  have hself : Numbered k 1 (k + 1) := by
    unfold Numbered
    omega
  exact hself.max h

theorem Mirror.close (h : Mirror k a b) (hclose : a.closeGroup = some a') :
    ∃ b', b.closeGroup = some b' ∧ Mirror k a' b' ∧ b'.flags.verbose = false := by
  have houters := h.outer
  unfold Reader.closeGroup at hclose
  split at hclose
  · cases hclose
  · rename_i o outer houter
    rw [houter] at houters
    obtain ⟨o', outer', ho, hrest, houter'⟩ := List.forall₂_cons_left_iff.mp houters
    cases hclose
    simp only [Reader.closeGroup, houter']
    refine ⟨_, rfl, ⟨ho.verbose.1.trans ho.verbose.2.symm, ho.level.push ?_, hrest⟩, ho.verbose.2⟩
    rcases ho.group with ⟨hgroup, hgroup'⟩ | ⟨hgroup, hgroup'⟩
    · rw [hgroup, hgroup']
      exact h.body
    · rw [hgroup, hgroup']
      exact h.body.capture

theorem Mirror.close_eq_none (h : Mirror k a b) (hclose : a.closeGroup = none) : b.closeGroup = none := by
  have houters := h.outer
  unfold Reader.closeGroup at hclose
  split at hclose
  · rename_i houter
    rw [houter, List.forall₂_nil_left_iff] at houters
    simp only [Reader.closeGroup, houters]
  · cases hclose

theorem Mirror.repeatLast {least : Nat} {most : Option Nat} {lazily : Bool} (h : Mirror k a b)
    (hrepeat : a.repeatLast least most lazily = some a') :
    ∃ b', b.repeatLast least most lazily = some b' ∧ Mirror k a' b' := by
  have hparts := h.level.parts
  unfold Reader.repeatLast at hrepeat
  split at hrepeat
  · rename_i r parts heq
    rw [heq] at hparts
    cases hrepeat
    generalize hb : b.parts = parts' at hparts
    cases hparts with
    | expr hr hmore =>
      simp only [Reader.repeatLast, hb]
      refine ⟨_, rfl, h.verbose, ⟨h.level.branches, .expr ?_ hmore⟩, h.outer⟩
      rw [maxCapture_rounds, maxCapture_rounds]
      split
      · exact numbered_zero (Nat.zero_le k)
      · exact hr
  · cases hrepeat

/-- A token does the same to both. -/
theorem Mirror.apply {token token' : Token} (h : Mirror k a b) (ha : a.flags.verbose = false)
    (htoken : token.Alike token') (happly : token.apply a = some a') :
    ∃ b', token'.apply b = some b' ∧ Mirror k a' b' := by
  have hnone : Numbered k 0 0 := numbered_zero (Nat.zero_le k)
  cases htoken with
  | group hverbose =>
    cases happly
    have houter : OuterMirror k ⟨a.flags, none, a.branches, a.parts⟩ ⟨b.flags, none, b.branches, b.parts⟩ :=
      ⟨⟨ha, h.verbose.symm.trans ha⟩, .inl ⟨rfl, rfl⟩, h.level⟩
    exact ⟨_, rfl, hverbose, levelMirror_nil k, .cons houter h.outer⟩
  | switches hverbose =>
    cases happly
    exact ⟨_, rfl, hverbose, ⟨h.level.branches, .switches h.level.parts⟩, h.outer⟩
  | close =>
    obtain ⟨b', hb', hab, -⟩ := h.close happly
    exact ⟨b', hb', hab⟩
  | branch =>
    cases happly
    refine ⟨_, rfl, h.verbose, ⟨?_, .nil (Nat.zero_le k)⟩, h.outer⟩
    have hbranch : Numbered k a.branch.maxCapture b.branch.maxCapture := by
      rw [maxCapture_branch, maxCapture_branch]
      exact h.level.parts.numbered
    exact hbranch.max h.level.branches
  | char =>
    cases happly
    exact ⟨_, rfl, h.push hnone⟩
  | look =>
    cases happly
    exact ⟨_, rfl, h.push hnone⟩
  | repeated => exact h.repeatLast happly

theorem groups_apply {token : Token} (h : token.apply st = some st') : st'.groups = st.groups := by
  cases token with
  | close =>
    simp only [Token.apply, Reader.closeGroup] at h
    split at h <;> cases h
    rfl
  | repeated least most lazily =>
    simp only [Token.apply, Reader.repeatLast] at h
    split at h <;> cases h
    rfl
  | _ =>
    cases h
    rfl

/-- What is read on its own is read the same behind other groups, up to a closing parenthesis. -/
theorem readAlone_mirror (h : readAlone fuel a s = some a') (hab : Mirror k a b) : a'.flags.verbose = false ∧
    ∃ b', Mirror k a' b' ∧ b'.groups = b.groups ∧ ∃ n ≤ s.length, ∀ fuel t,
      readTokens (fuel + n) b (s ++ ')' :: t) = readTokens fuel b' (')' :: t) := by
  induction fuel generalizing a b s with
  | zero => cases h
  | succ fuel ih =>
    obtain ⟨hverbose, hgroups⟩ := readAlone_start h
    cases s with
    | nil =>
      obtain rfl := readAlone_nil h
      exact ⟨hverbose, b, hab, rfl, 0, Nat.le_refl 0, fun _ _ => rfl⟩
    | cons c s =>
      obtain ⟨next, after, htoken, hmore⟩ := readAlone_cons h
      obtain ⟨token, hreads⟩ := readToken_eq_some hverbose htoken ((readAlone_start hmore).2.trans hgroups.symm)
      have hverbose' : b.flags.verbose = false := hab.verbose.symm.trans hverbose
      obtain ⟨next', happly', hnext⟩ := hab.apply hverbose (hreads.alike _ hverbose') hreads.applies
      obtain ⟨hend, b', hb', hgroups', n, hn, hread⟩ := ih hmore hnext
      refine ⟨hend, b', hb', hgroups'.trans (groups_apply happly'), n + 1, ?_, fun fuel t => ?_⟩
      · have := hreads.suffix.length_le
        rw [List.length_cons]
        omega
      · have htoken' : readToken b c (s ++ ')' :: t) = some (next', after ++ ')' :: t) := by
          rw [hreads.spelled _ hverbose' b t rfl, happly']
          rfl
        rw [List.cons_append, ← Nat.add_assoc, readTokens_step b hverbose' htoken', hread]

-- ---------------------------------------------------------------------------
-- Between the parts of a template
-- ---------------------------------------------------------------------------

/-- All groups are closed, and `k` of them have a number, the last of which captures. -/
structure Reader.Behind (k : Nat) (st : Reader) : Prop where
  verbose : st.flags.verbose = false
  outer : st.outer = []
  groups : st.groups = k
  captures : st.body.maxCapture = k

theorem behind_anchored : Reader.anchored.Behind 0 := ⟨rfl, rfl, rfl, rfl⟩

theorem maxCapture_push (st : Reader) (hr : r.maxCapture = 0) : (st.push r).body.maxCapture = st.body.maxCapture := by
  rw [maxCapture_body, maxCapture_body]
  show max (sequence st.branches).maxCapture (max r.maxCapture (partsCapture st.parts)) = _
  rw [hr, Nat.zero_max]

theorem Reader.Behind.push (h : st.Behind k) (hr : r.maxCapture = 0) : (st.push r).Behind k :=
  ⟨h.verbose, h.outer, h.groups, (maxCapture_push st hr).trans h.captures⟩

theorem reads_escape_behind (h : st.Behind k) (s : List Char) : ∃ st', st'.Behind k ∧ Reads (escape s) st st' := by
  induction s generalizing st with
  | nil => exact ⟨st, h, Reads.nil st⟩
  | cons c s ih =>
    obtain ⟨st', hst', hs⟩ := ih (h.push (r := .char (.single c) st.flags.ignoreCase) rfl)
    rw [escape_cons]
    exact ⟨st', hst', (reads_literal h.verbose c).append hs⟩

def Reader.grouped : Reader := { alone with outer := [⟨ignoringCase, some 1, [], []⟩] }

theorem mirror_openCapture (h : st.Behind k) : Mirror k .grouped st.openCapture := by
  have hcaptures := h.captures
  rw [maxCapture_body] at hcaptures
  have hbranches : Numbered k 0 (sequence st.branches).maxCapture := numbered_zero (by omega)
  have hparts : partsCapture st.parts ≤ k := by omega
  have hgroup : st.openCapture.outer = [⟨st.flags, some (k + 1), st.branches, st.parts⟩] := by
    rw [Reader.openCapture, h.groups]
    simp only [Reader.openGroup, h.outer]
  refine ⟨h.verbose.symm, levelMirror_nil k, ?_⟩
  rw [hgroup]
  exact .cons ⟨⟨rfl, h.verbose⟩, .inr ⟨rfl, rfl⟩, ⟨hbranches, .nil hparts⟩⟩ .nil

-- ---------------------------------------------------------------------------
-- Filling a group
-- ---------------------------------------------------------------------------

/-- Read between the parentheses of a group, the text never turns on verbose mode, in which a comment could
hide what follows, and opens no other group with a number. -/
def readsPlainly (s : List Char) : Bool := (readAlone (s.length + 1) .grouped s).isSome

/-- Read plainly, and with the parenthesis behind it, the text leaves all groups closed, and one captures. -/
def fillsGroup (s : List Char) : Bool :=
  ((readAlone (s.length + 1) .grouped s).bind Reader.closeGroup).any fun st =>
    st.outer.isEmpty && st.body.maxCapture != 0

theorem fillsGroup_iff : fillsGroup s ↔ ∃ e a, readAlone (s.length + 1) .grouped s = some e ∧
    e.closeGroup = some a ∧ a.outer = [] ∧ a.body.maxCapture ≠ 0 := by
  simp only [fillsGroup, Option.any_eq_true, Option.bind_eq_some_iff, Bool.and_eq_true, List.isEmpty_iff, bne_iff_ne]
  constructor
  · rintro ⟨a, ⟨e, hread, hclose⟩, houter, hcaptures⟩
    exact ⟨e, a, hread, hclose, houter, hcaptures⟩
  · rintro ⟨e, a, hread, hclose, houter, hcaptures⟩
    exact ⟨a, ⟨e, hread, hclose⟩, houter, hcaptures⟩

theorem exists_opened {e : Reader} (hread : readAlone (s.length + 1) .grouped s = some e) (hst : st.Behind k) :
    ∃ st', Mirror k e st' ∧ st'.flags.verbose = false ∧ st'.groups = k + 1 ∧ ∃ n ≤ s.length + 1, ∀ fuel t,
      readTokens (fuel + n) st ('(' :: (s ++ ')' :: t)) = readTokens fuel st' (')' :: t) := by
  obtain ⟨hverbose, st', hmirror, hgroups, n, hn, hs⟩ := readAlone_mirror hread (mirror_openCapture hst)
  have hgroups' : st'.groups = k + 1 := by
    rw [hgroups, ← hst.groups]
    rfl
  refine ⟨st', hmirror, hmirror.verbose.symm.trans hverbose, hgroups', n + 1, Nat.succ_le_succ hn, fun fuel t => ?_⟩
  have hopen : readToken st '(' (s ++ ')' :: t) = some (st.openCapture, s ++ ')' :: t) :=
    readToken_capture hst.verbose (start_of_readAlone hread rfl t)
  rw [← Nat.add_assoc, readTokens_step st hst.verbose hopen, hs]

theorem reads_closed {e : Reader} (hread : readAlone (s.length + 1) .grouped s = some e) (hclose : e.closeGroup = some a)
    (hst : st.Behind k) :
    ∃ st', Mirror k a st' ∧ st'.flags.verbose = false ∧ st'.groups = k + 1 ∧ Reads ('(' :: s ++ [')']) st st' := by
  obtain ⟨f, hef, hverbose, hgroups, n, hn, hs⟩ := exists_opened hread hst
  obtain ⟨st', hclose', hmirror, hverbose'⟩ := hef.close hclose
  have hgroups' : st'.groups = k + 1 := (@groups_apply f st' .close hclose').trans hgroups
  refine ⟨st', hmirror, hverbose', hgroups', n + 1, by simp; omega, fun fuel t => ?_⟩
  have hend : readToken f ')' t = some (st', t) := by
    simp only [readToken, hclose', Option.map_some]
  rw [show '(' :: s ++ [')'] ++ t = '(' :: (s ++ ')' :: t) by simp, Nat.add_comm n 1, ← Nat.add_assoc, hs,
    readTokens_step f hverbose hend]

theorem reads_group (h : fillsGroup s) (hst : st.Behind k) :
    ∃ st', st'.Behind (k + 1) ∧ Reads ('(' :: s ++ [')']) st st' := by
  obtain ⟨e, a, hread, hclose, houter, hcaptures⟩ := fillsGroup_iff.mp h
  obtain ⟨st', hmirror, hverbose, hgroups, hs⟩ := reads_closed hread hclose hst
  have houter' : st'.outer = [] := by
    have houters := hmirror.outer
    rwa [houter, List.forall₂_nil_left_iff] at houters
  have hcaptures' : st'.body.maxCapture = k + 1 := by
    obtain ⟨hle, hzero⟩ := hmirror.body
    have hlt : ¬ st'.body.maxCapture ≤ k := fun hle => hcaptures (hzero.mpr hle)
    omega
  exact ⟨st', ⟨hverbose, houter', hgroups, hcaptures'⟩, hs⟩

theorem AddsParts.fillsGroup (h : AddsParts s) : fillsGroup s := by
  obtain ⟨rs, hread⟩ := h .grouped rfl rfl
  refine fillsGroup_iff.mpr ⟨_, _, hread, rfl, rfl, ?_⟩
  rw [maxCapture_body]
  show max 0 (max (max 1 _) 0) ≠ 0
  omega

-- ---------------------------------------------------------------------------
-- Whole texts
-- ---------------------------------------------------------------------------

theorem finish_eq_some_iff : st.finish = some r ↔ st.outer = [] ∧ st.body = r := by
  unfold Reader.finish
  split
  · rename_i h
    simp [List.isEmpty_iff.mp h]
  · rename_i h
    simp [List.isEmpty_iff.not.mp h]

theorem ofText?_behind (h : Reads s .anchored st) (hst : st.Behind k) :
    ∃ r, ofText? ("(?i)^".toList ++ s ++ ['$']) = some r ∧ r.maxCapture = k := by
  have hend : (st.push (.look (Reader.lineEnd st.flags))).Behind k := hst.push rfl
  exact ⟨_, (ofText?_of_reads h hst.verbose).trans (finish_eq_some_iff.mpr ⟨hend.outer, rfl⟩), hend.captures⟩

/-- A text that is read plainly fills its group if the expression of that group alone is one that captures. -/
theorem fillsGroup_of_ofText? (hplain : readsPlainly s)
    (h : ofText? ("(?i)^".toList ++ ('(' :: s ++ [')']) ++ ['$']) = some r) (hr : r.maxCapture ≠ 0) :
    fillsGroup s := by
  obtain ⟨e, hread⟩ := Option.isSome_iff_exists.mp hplain
  cases hclose : e.closeGroup with
  | none =>
    -- The parenthesis behind the text closes nothing there either.
    obtain ⟨f, hef, hverbose, -, n, hn, hs⟩ := exists_opened hread behind_anchored
    have hstuck : readToken f ')' ['$'] = none := by
      simp only [readToken, hef.close_eq_none hclose, Option.map_none]
    obtain ⟨fuel, hfuel⟩ : ∃ fuel, ('(' :: s ++ [')'] ++ ['$']).length + 4 = fuel + 1 + n :=
      ⟨s.length + 6 - n, by simp; omega⟩
    have htext : '(' :: s ++ [')'] ++ ['$'] = '(' :: (s ++ ')' :: ['$']) := by simp
    rw [List.append_assoc, ofText?_eq_anchored, hfuel, htext, hs, readTokens_stop hverbose hstuck] at h
    cases h
  | some a =>
    obtain ⟨st', hmirror, hverbose, -, hs⟩ := reads_closed hread hclose behind_anchored
    rw [ofText?_of_reads hs hverbose] at h
    obtain ⟨houter, rfl⟩ := finish_eq_some_iff.mp h
    rw [maxCapture_push st' rfl] at hr
    have houters : List.Forall₂ (OuterMirror 0) a.outer [] := houter ▸ hmirror.outer
    refine fillsGroup_iff.mpr ⟨e, a, hread, hclose, List.forall₂_nil_right_iff.mp houters, fun hzero => hr ?_⟩
    exact Nat.le_zero.mp (hmirror.body.2.mp hzero)

end ContestTests.Regex
