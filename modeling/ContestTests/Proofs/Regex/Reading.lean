import ContestTests.Proofs.Regex.Letters
import ContestTests.Regex.Reader

/-!
# Reading an expression piece by piece

`Reads` says what a piece of text does to a reader whatever follows the piece, so pieces compose. The
pieces are escaped text, groups around a fragment, and the places at both ends. Every piece pushes its
parts and leaves all else of the reader alone.
-/

namespace ContestTests.Regex

open ContestTests.Text

variable {c : Char} {s t u body : List Char} {st st' st'' : Reader} {rs rs' : List Regex} {members : CharSet}

def ignoringCase : Flags := { Flags.none with ignoreCase := true }

def Reader.extend (st : Reader) (rs : List Regex) (groups : Nat) : Reader :=
  { st with parts := (rs.map Part.expr).reverse ++ st.parts, groups := st.groups + groups }

@[simp] theorem extend_flags : (st.extend rs n).flags = st.flags := rfl

@[simp] theorem extend_groups : (st.extend rs n).groups = st.groups + n := rfl

@[simp] theorem extend_nil : st.extend [] 0 = st := rfl

@[simp] theorem extend_extend : (st.extend rs n).extend rs' m = st.extend (rs ++ rs') (n + m) := by
  simp [Reader.extend, Nat.add_assoc]

theorem push_eq_extend (st : Reader) (r : Regex) : st.push r = st.extend [r] 0 := rfl

def Reads (s : List Char) (st st' : Reader) : Prop :=
  ∃ n ≤ s.length, ∀ fuel t, readTokens (fuel + n) st (s ++ t) = readTokens fuel st' t

theorem Reads.nil (st : Reader) : Reads [] st st := ⟨0, Nat.le_refl 0, fun _ _ => rfl⟩

theorem Reads.append (h : Reads s st st') (h' : Reads t st' st'') : Reads (s ++ t) st st'' := by
  obtain ⟨n, hn, hs⟩ := h
  obtain ⟨m, hm, ht⟩ := h'
  refine ⟨m + n, by rw [List.length_append]; omega, fun fuel u => ?_⟩
  rw [← Nat.add_assoc, List.append_assoc, hs, ht]

theorem verbose_of_ignoringCase (hst : st.flags = ignoringCase) : st.flags.verbose = false := by
  rw [hst]
  rfl

theorem readTokens_step (st : Reader) (hst : st.flags.verbose = false) (h : readToken st c s = some (st', t)) :
    readTokens (fuel + 1) st (c :: s) = readTokens fuel st' t := by
  rw [readTokens, hst]
  simp only [skipBlanks_false, h]

theorem readTokens_stop (hst : st.flags.verbose = false) (h : readToken st c s = none) :
    readTokens (fuel + 1) st (c :: s) = none := by
  rw [readTokens, hst]
  simp only [skipBlanks_false, h]

-- ---------------------------------------------------------------------------
-- Literal text
-- ---------------------------------------------------------------------------

def literalChar (c : Char) : Regex := .char (.single c) true

theorem literal_eq_extend (hst : st.flags = ignoringCase) (c : Char) :
    st.literal c = st.extend [literalChar c] 0 := by
  rw [Reader.literal, push_eq_extend, hst]
  rfl

theorem readToken_plain (h : isMeta c = false) (t : List Char) :
    readToken st c t = some (st.literal c, t) := by
  rw [readToken]
  all_goals
    rintro rfl
    cases h

theorem readToken_escape (hst : st.flags.verbose = false) (c : Char) :
    ∃ d more, escape [c] = d :: more ∧ ∀ t, readToken st d (more ++ t) = some (st.literal c, t) := by
  cases hc : isMeta c with
  | true =>
    refine ⟨'\\', [c], escape_meta hc, fun t => ?_⟩
    simp only [readToken, hst]
    exact congrArg (Option.map _) (readEscape_meta hc t)
  | false => exact ⟨c, [], escape_plain hc, fun t => readToken_plain hc t⟩

theorem reads_literal (hst : st.flags.verbose = false) (c : Char) : Reads (escape [c]) st (st.literal c) := by
  obtain ⟨d, more, he, htoken⟩ := readToken_escape hst c
  rw [he]
  exact ⟨1, Nat.le_add_left _ _, fun fuel t => readTokens_step st hst (htoken t)⟩

theorem reads_escape (st : Reader) (hst : st.flags = ignoringCase) (s : List Char) :
    Reads (escape s) st (st.extend (s.map literalChar) 0) := by
  induction s generalizing st with
  | nil => exact Reads.nil st
  | cons c s ih =>
    have hchar := reads_literal (verbose_of_ignoringCase hst) c
    rw [literal_eq_extend hst] at hchar
    rw [escape_cons]
    simpa using hchar.append (ih (st.extend [literalChar c] 0) hst)

-- ---------------------------------------------------------------------------
-- Groups
-- ---------------------------------------------------------------------------

/-- The inside of a group: it is read up to the closing bracket, and does not begin like a group that
captures nothing. -/
structure Fragment (s : List Char) (rs : List Regex) : Prop where
  start : ∀ t, (s ++ ')' :: t).head? ≠ some '?'
  reads : ∀ st : Reader, st.flags = ignoringCase → ∃ n ≤ s.length, ∀ fuel t,
    readTokens (fuel + n) st (s ++ ')' :: t) = readTokens fuel (st.extend rs 0) (')' :: t)

theorem readGroup_capture (hst : st.flags.verbose = false) (hs : s.head? ≠ some '?') :
    readGroup st s = some (st.openCapture, s) := by
  unfold readGroup
  simp only [hst, skipBlanks_false]
  split
  all_goals first | rfl | exact absurd rfl hs

theorem readToken_capture (hst : st.flags.verbose = false) (hs : s.head? ≠ some '?') :
    readToken st '(' s = some (st.openCapture, s) :=
  readGroup_capture hst hs

theorem filterMap_expr (rs : List Regex) : (rs.map Part.expr).filterMap Part.expr? = rs := by
  simp [List.filterMap_map, Function.comp_def, Part.expr?]

theorem branch_extend (h : st.parts = []) : (st.extend rs n).branch = sequence rs := by
  rw [Reader.branch, Reader.extend, h, List.append_nil, List.reverse_reverse, filterMap_expr]

structure Inside (s : List Char) (r : Regex) : Prop where
  start : ∀ t, (s ++ ')' :: t).head? ≠ some '?'
  reads : ∀ st : Reader, st.flags = ignoringCase → st.branches = [] → st.parts = [] → ∃ n ≤ s.length,
    ∃ st' : Reader, (st'.flags.verbose = false ∧ st'.body = r) ∧
      (st'.outer = st.outer ∧ st'.groups = st.groups ∧ st'.names = st.names) ∧
      ∀ fuel t, readTokens (fuel + n) st (s ++ ')' :: t) = readTokens fuel st' (')' :: t)

theorem Fragment.inside (h : Fragment s rs) : Inside s (sequence rs) where
  start := h.start
  reads st hst hbranches hparts := by
    obtain ⟨n, hn, hs⟩ := h.reads st hst
    refine ⟨n, hn, st.extend rs 0, ⟨?_, ?_⟩, ⟨rfl, rfl, rfl⟩, hs⟩
    · rw [extend_flags, hst]
      rfl
    · rw [Reader.body, branch_extend hparts]
      show choice (st.branches.reverse ++ [sequence rs]) = sequence rs
      rw [hbranches]
      rfl

theorem closeGroup_openCapture {st' : Reader} (st : Reader) (houter : st'.outer = st.openCapture.outer)
    (hgroups : st'.groups = st.openCapture.groups) (hnames : st'.names = st.openCapture.names) :
    st'.closeGroup = some (st.extend [.capture (st.groups + 1) st'.body] 1) := by
  have hopen : st.openCapture.outer = ⟨st.flags, some (st.groups + 1), st.branches, st.parts⟩ :: st.outer := rfl
  rw [Reader.closeGroup, houter, hopen]
  simp only [hgroups, hnames]
  rfl

theorem reads_inside (st : Reader) (hst : st.flags = ignoringCase) (h : Inside s r) :
    Reads ('(' :: s ++ [')']) st (st.extend [.capture (st.groups + 1) r] 1) := by
  obtain ⟨n, hn, st', ⟨hverbose, rfl⟩, ⟨houter, hgroups, hnames⟩, hs⟩ := h.reads st.openCapture hst rfl rfl
  refine ⟨1 + n + 1, by simp; omega, fun fuel t => ?_⟩
  have hopen : readToken st '(' (s ++ ')' :: t) = some (st.openCapture, s ++ ')' :: t) :=
    readToken_capture (verbose_of_ignoringCase hst) (h.start t)
  have hclose : readToken st' ')' t = some (st.extend [.capture (st.groups + 1) st'.body] 1, t) := by
    simp only [readToken, closeGroup_openCapture st houter hgroups hnames, Option.map_some]
  rw [show '(' :: s ++ [')'] ++ t = '(' :: (s ++ ')' :: t) by simp, ← Nat.add_assoc, ← Nat.add_assoc,
    readTokens_step _ (verbose_of_ignoringCase hst) hopen, hs, readTokens_step _ hverbose hclose]

-- ---------------------------------------------------------------------------
-- Fragments
-- ---------------------------------------------------------------------------

theorem fragment_escape (s : List Char) : Fragment (escape s) (s.map literalChar) where
  start t := by
    cases s with
    | nil => simp [escape]
    | cons c s =>
      obtain ⟨d, more, he, -, hd, -⟩ := head_escape (s := c :: s) (by simp)
      rw [he]
      simpa using hd
  reads st hst := by
    obtain ⟨n, hn, h⟩ := reads_escape st hst s
    exact ⟨n, hn, fun fuel t => h fuel (')' :: t)⟩

theorem readToken_class (hst : st.flags = ignoringCase)
    (h : readClass false (body ++ [']']) = some (members, [])) (t : List Char) :
    readToken st '[' (body ++ ']' :: t) = some (st.extend [.char members true] 0, t) := by
  have hclass : readClass false (body ++ ']' :: t) = some (members, t) := by
    simpa using (readClass_steady _ _ h).2 t
  rw [← push_eq_extend]
  simp only [readToken, hst, ignoringCase, Flags.none, hclass]
  rfl

theorem fragment_class (h : readClass false (body ++ [']']) = some (members, [])) :
    Fragment ('[' :: body ++ [']']) [.char members true] where
  start t := by simp
  reads st hst := by
    refine ⟨1, by simp, fun fuel t => ?_⟩
    rw [show '[' :: body ++ [']'] ++ ')' :: t = '[' :: (body ++ ']' :: ')' :: t) by simp]
    exact readTokens_step st (verbose_of_ignoringCase hst) (readToken_class hst h _)

theorem fragment_repeated (h : readClass false (body ++ [']']) = some (members, []))
    (hop : ∀ st : Reader, st.flags = ignoringCase → ∀ t,
      readToken (st.extend [.char members true] 0) op (')' :: t) = some (st.extend [r] 0, ')' :: t)) :
    Fragment ('[' :: body ++ [']', op]) [r] where
  start t := by simp
  reads st hst := by
    refine ⟨1 + 1, by simp, fun fuel t => ?_⟩
    rw [show '[' :: body ++ [']', op] ++ ')' :: t = '[' :: (body ++ ']' :: op :: ')' :: t) by simp,
      ← Nat.add_assoc, readTokens_step st (verbose_of_ignoringCase hst) (readToken_class hst h _)]
    exact readTokens_step _ (verbose_of_ignoringCase hst) (hop st hst t)

theorem fragment_plus (h : readClass false (body ++ [']']) = some (members, [])) :
    Fragment ('[' :: body ++ [']', '+']) [.rep (.char members true) 1 none true] :=
  fragment_repeated h fun st hst t => by
    simp [readToken, readLazy, Reader.repeatLast, Reader.extend, hst, ignoringCase, Flags.none, rounds]

theorem fragment_star (h : readClass false (body ++ [']']) = some (members, [])) :
    Fragment ('[' :: body ++ [']', '*']) [.rep (.char members true) 0 none true] :=
  fragment_repeated h fun st hst t => by
    simp [readToken, readLazy, Reader.repeatLast, Reader.extend, hst, ignoringCase, Flags.none, rounds]

theorem fragment_optional (h : readClass false (body ++ [']']) = some (members, [])) :
    Fragment ('[' :: body ++ [']', '?']) [.rep (.char members true) 0 (some 1) true] :=
  fragment_repeated h fun st hst t => by
    simp [readToken, readLazy, Reader.repeatLast, Reader.extend, hst, ignoringCase, Flags.none, rounds]

-- ---------------------------------------------------------------------------
-- Whole texts
-- ---------------------------------------------------------------------------

def Reader.anchored : Reader :=
  { Reader.start with flags := ignoringCase, parts := [.expr (.look .textStart), .switches] }

theorem readTokens_anchored (fuel : Nat) (t : List Char) :
    readTokens (fuel + 2) .start ("(?i)^".toList ++ t) = readTokens fuel .anchored t := rfl

theorem ofText?_eq_anchored (s : List Char) :
    ofText? ("(?i)^".toList ++ s) = (readTokens (s.length + 4) .anchored s).bind Reader.finish := by
  rw [ofText?, show ("(?i)^".toList ++ s).length + 1 = s.length + 4 + 2 by simp, readTokens_anchored]

theorem ofText?_of_reads (h : Reads s .anchored st) (hst : st.flags.verbose = false) :
    ofText? ("(?i)^".toList ++ s ++ ['$']) = (st.push (.look (Reader.lineEnd st.flags))).finish := by
  obtain ⟨m, hm, hs⟩ := h
  obtain ⟨fuel, hfuel⟩ : ∃ fuel, (s ++ ['$']).length + 4 = fuel + 1 + 1 + m := ⟨s.length - m + 3, by simp; omega⟩
  have hend : readTokens (fuel + 1 + 1) st ['$'] = some (st.push (.look (Reader.lineEnd st.flags))) := by
    have hflags : (st.push (.look (Reader.lineEnd st.flags))).flags.verbose = false := hst
    rw [readTokens_step st hst rfl, readTokens, hflags, skipBlanks_false]
  rw [List.append_assoc, ofText?_eq_anchored, hfuel, hs, hend]
  rfl

theorem finish_anchored (rs : List Regex) (n : Nat) :
    (Reader.anchored.extend rs n).finish = some (sequence (.look .textStart :: rs)) := by
  have hparts : (Reader.anchored.extend rs n).branch = sequence (.look .textStart :: rs) := by
    simp only [Reader.branch, Reader.extend, Reader.anchored, List.reverse_append,
      List.reverse_reverse, List.filterMap_append, filterMap_expr]
    rfl
  rw [Reader.finish, Reader.body, hparts]
  rfl

theorem ofText?_anchored (h : Reads s .anchored (Reader.anchored.extend rs n)) :
    ofText? ("(?i)^".toList ++ s ++ ['$']) =
      some (sequence (.look .textStart :: (rs ++ [.look .textEnd]))) := by
  have hend : (Reader.anchored.extend rs n).push (.look .textEnd) = Reader.anchored.extend (rs ++ [.look .textEnd]) n := by
    rw [push_eq_extend, extend_extend]
    rfl
  rw [ofText?_of_reads h rfl]
  exact (congrArg Reader.finish hend).trans (finish_anchored _ _)

end ContestTests.Regex
