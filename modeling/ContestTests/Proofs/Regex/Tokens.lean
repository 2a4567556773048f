import ContestTests.Proofs.Regex.Classes
import ContestTests.Regex.Reader

/-!
# Tokens and what follows them

A token that opens no group of its own number is one of a few changes to the reader, settled by the
switches and by the text of the token. Text behind a closing parenthesis does not count: the readers that
look further, for a question mark or for braces, stop at the parenthesis.
-/

namespace ContestTests.Regex

open ContestTests.Text

variable {c : Char} {s t rest : List Char} {st st' : Reader} {flags flags' : Flags}

/-- A successful reading does not depend on what follows a closing parenthesis. -/
def SteadyInside (read : List Char → Option (α × List Char)) (s : List Char) : Prop :=
  ∀ x rest, read s = some (x, rest) → rest <:+ s ∧ ∀ t, read (s ++ ')' :: t) = some (x, rest ++ ')' :: t)

-- ---------------------------------------------------------------------------
-- Switches
-- ---------------------------------------------------------------------------

theorem readSwitches_steady {seen : List Char} {on colon : Bool}
    (h : readSwitches flags seen on s = some (flags', colon, rest)) :
    rest <:+ s ∧ ∀ t, readSwitches flags seen on (s ++ t) = some (flags', colon, rest ++ t) := by
  induction s generalizing flags seen on with
  | nil => cases h
  | cons c s ih =>
    rw [readSwitches] at h
    simp only [List.cons_append, readSwitches]
    have hcons := List.suffix_cons c s
    split at h
    · split at h
      · cases h
      · cases h
        exact ⟨hcons, fun t => by simp [*]⟩
    · split at h
      · split at h
        · cases h
        · cases h
          exact ⟨hcons, fun t => by simp [*]⟩
      · split at h
        · cases h
        · split at h
          · rename_i hseen hminus
            obtain ⟨hs, ht⟩ := ih h
            subst hminus
            exact ⟨hs.trans hcons, fun t => by simp [hseen, ht]⟩
          · split at h
            · obtain ⟨hs, ht⟩ := ih h
              exact ⟨hs.trans hcons, fun t => by simp [*]⟩
            · cases h

theorem set?_eq_edit (h : flags.set? c on = some flags') : ∃ edit : Flags → Flags, edit flags = flags' ∧
    (∀ flags, flags.set? c on = some (edit flags)) ∧
    ∀ flags flags' : Flags, flags.verbose = flags'.verbose → (edit flags).verbose = (edit flags').verbose := by
  unfold Flags.set? at h
  split at h
  · cases h
    exact ⟨fun flags => { flags with ignoreCase := on }, rfl, fun _ => rfl, fun _ _ hverbose => hverbose⟩
  · cases h
    exact ⟨fun flags => { flags with multiLine := on }, rfl, fun _ => rfl, fun _ _ hverbose => hverbose⟩
  · cases h
    exact ⟨fun flags => { flags with dotAll := on }, rfl, fun _ => rfl, fun _ _ hverbose => hverbose⟩
  · cases h
    exact ⟨fun flags => { flags with swapGreed := on }, rfl, fun _ => rfl, fun _ _ hverbose => hverbose⟩
  · split at h
    · cases h
      exact ⟨id, rfl, fun _ => if_pos ‹_›, fun _ _ hverbose => hverbose⟩
    · cases h
  · cases h
    exact ⟨fun flags => { flags with crlf := on }, rfl, fun _ => rfl, fun _ _ hverbose => hverbose⟩
  · cases h
    exact ⟨fun flags => { flags with verbose := on }, rfl, fun _ => rfl, fun _ _ _ => rfl⟩
  · cases h

/-- Switches are read the same whatever they were before, and verbose mode depends on itself alone. -/
theorem readSwitches_eq_edit {seen : List Char} {on colon : Bool}
    (h : readSwitches flags seen on s = some (flags', colon, rest)) : ∃ edit : Flags → Flags, edit flags = flags' ∧
      (∀ flags, readSwitches flags seen on s = some (edit flags, colon, rest)) ∧
      ∀ flags flags' : Flags, flags.verbose = flags'.verbose → (edit flags).verbose = (edit flags').verbose := by
  induction s generalizing flags seen on with
  | nil => cases h
  | cons c s ih =>
    rw [readSwitches] at h
    simp only [readSwitches]
    split at h
    · split at h
      · cases h
      · cases h
        exact ⟨id, rfl, fun _ => by simp [*], fun _ _ hverbose => hverbose⟩
    · split at h
      · split at h
        · cases h
        · cases h
          exact ⟨id, rfl, fun _ => by simp [*], fun _ _ hverbose => hverbose⟩
      · split at h
        · cases h
        · split at h
          · rename_i hseen hminus
            obtain ⟨edit, he, hread, hverbose⟩ := ih h
            subst hminus
            exact ⟨edit, he, fun flags => by simp [hseen, hread], hverbose⟩
          · split at h
            · rename_i hset
              obtain ⟨first, hfirst, hset', hverbose⟩ := set?_eq_edit hset
              obtain ⟨edit, he, hread, hverbose'⟩ := ih h
              refine ⟨edit ∘ first, by rw [Function.comp_apply, hfirst, he], fun flags => ?_,
                fun flags flags' hflags => hverbose' _ _ (hverbose _ _ hflags)⟩
              simp [*]
            · cases h

-- ---------------------------------------------------------------------------
-- Repetitions
-- ---------------------------------------------------------------------------

theorem readLazy_inside (s t : List Char) :
    readLazy (s ++ ')' :: t) = ((readLazy s).1, (readLazy s).2 ++ ')' :: t) := by
  rcases s with _ | ⟨c, s⟩
  · rfl
  · by_cases hc : c = '?'
    · subst hc
      rfl
    · simp [readLazy, hc]

theorem readLazy_suffix (s : List Char) : (readLazy s).2 <:+ s := by
  unfold readLazy
  split
  · exact List.suffix_cons _ _
  · exact List.suffix_rfl

theorem dropWhile_append_of_cons {p : Char → Bool} (h : s.dropWhile p = c :: rest) (t : List Char) :
    (s ++ t).dropWhile p = c :: rest ++ t ∧ (s ++ t).takeWhile p = s.takeWhile p := by
  have hc : p c = false := by
    have hhead := List.head?_dropWhile_not p s
    rw [h] at hhead
    simpa using hhead
  have hmem : c ∈ s := (List.dropWhile_suffix p).mem (h ▸ List.mem_cons_self)
  obtain ⟨hdrop, htake, -⟩ := dropWhile_append_of_mem hmem hc t
  exact ⟨hdrop.trans (by rw [h]), htake⟩

theorem read_eq_span {p : Char → Bool} {read : Nat → List Char → List Char × List Char}
    (hend : ∀ fuel, read fuel [] = ([], []))
    (hstep : ∀ fuel c s, read (fuel + 1) (c :: s) = if p c then (c :: (read fuel s).1, (read fuel s).2) else ([], c :: s))
    (h : s.length ≤ fuel) : read fuel s = (s.takeWhile p, s.dropWhile p) := by
  induction s generalizing fuel with
  | nil => exact hend fuel
  | cons c s ih =>
    cases fuel with
    | zero => cases h
    | succ fuel =>
      have hmore := ih (Nat.le_of_succ_le_succ h)
      cases hc : p c <;> simp [hstep, hmore, hc]

theorem readDigits_eq (h : s.length ≤ fuel) :
    readCount.readDigits false fuel s = (s.takeWhile Char.isDigit, s.dropWhile Char.isDigit) :=
  read_eq_span (fun fuel => by cases fuel <;> rfl) (fun _ _ _ => rfl) h

theorem readCount_eq (s : List Char) : readCount false s =
    (let digits := (s.dropWhile isBlank).takeWhile Char.isDigit
    (if digits.isEmpty ∨ ofDigits digits ≥ bound32 then none else some (ofDigits digits),
      ((s.dropWhile isBlank).dropWhile Char.isDigit).dropWhile isBlank)) := by
  have hlen : (s.dropWhile isBlank).length ≤ s.length + 1 :=
    Nat.le_succ_of_le (List.dropWhile_suffix isBlank).length_le
  rw [readCount, readDigits_eq hlen]
  rfl

theorem readCount_steady {value : Option Nat} (h : readCount false s = (value, c :: rest)) :
    c :: rest <:+ s ∧ ∀ t, readCount false (s ++ t) = (value, c :: rest ++ t) := by
  rw [readCount_eq] at h
  obtain ⟨hvalue, hrest⟩ := Prod.mk.inj h
  have hsuffix := List.dropWhile_suffix (l := s) isBlank
  have hsuffix' := List.dropWhile_suffix (l := s.dropWhile isBlank) Char.isDigit
  have hsuffix'' := List.dropWhile_suffix (l := (s.dropWhile isBlank).dropWhile Char.isDigit) isBlank
  rw [hrest] at hsuffix''
  refine ⟨(hsuffix''.trans hsuffix').trans hsuffix, fun t => ?_⟩
  obtain ⟨d, behind, hbehind⟩ := List.exists_cons_of_ne_nil (List.ne_nil_of_mem (hsuffix''.mem List.mem_cons_self))
  obtain ⟨e, blank, hblank⟩ := List.exists_cons_of_ne_nil
    (List.ne_nil_of_mem (hsuffix'.mem (hsuffix''.mem List.mem_cons_self)))
  obtain ⟨hd, -⟩ := dropWhile_append_of_cons hblank t
  obtain ⟨hd', ht'⟩ := dropWhile_append_of_cons hbehind t
  obtain ⟨hd'', -⟩ := dropWhile_append_of_cons hrest t
  rw [readCount_eq, hd, ← hblank, ht', hd', ← hbehind, hd'']
  exact congrArg (·, c :: rest ++ t) hvalue

def readGreatest (s : List Char) : Option (Option Nat × List Char) :=
  match (readCount false s).1, (readCount false s).2 with
  | some most, '\x7d' :: rest => some (some most, rest)
  | _, _ => none

def readMost (least : Nat) : List Char → Option (Option Nat × List Char)
  | [] => none
  | c :: rest =>
    if c = ',' then if rest.head? = some '\x7d' then some (none, rest.tail) else readGreatest rest
    else if c = '\x7d' then some (some least, rest) else none

theorem readBounds_eq (s : List Char) :
    readBounds false s = (readCount false s).1.bind fun least =>
      (readMost least (readCount false s).2).bind fun b =>
        if b.1.any (· < least) then none else some (least, b.1, readLazy b.2) := by
  rw [readBounds]
  simp only [skipBlanks_false]
  refine congrArg _ (funext fun least => ?_)
  rcases (readCount false s).2 with _ | ⟨c, after⟩
  · rfl
  by_cases hcomma : c = ','
  · subst hcomma
    have hcount (after : List Char) : ((readGreatest after).bind fun b =>
        if b.1.any (· < least) then none else some (least, b.1, readLazy b.2)) =
        match (readCount false after).1, (readCount false after).2 with
        | some most, '\x7d' :: rest =>
          if (some most).any (· < least) then none else some (least, some most, readLazy rest)
        | _, _ => none := by
      unfold readGreatest
      split <;> rfl
    rcases after with _ | ⟨d, after⟩
    · exact (hcount []).symm
    · by_cases hd : d = '\x7d'
      · subst hd
        rfl
      · simp only [readMost, List.head?_cons, Option.some.injEq, hd, if_true, if_false, hcount]
        split
        · rename_i he
          exact absurd (List.cons.inj he).1 hd
        · rfl
  · by_cases hclose : c = '\x7d'
    · subst hclose
      rfl
    · simp [readMost, hcomma, hclose]

theorem readGreatest_steady : Steady readGreatest s := by
  intro most rest h
  unfold readGreatest at h
  split at h
  · rename_i value after hvalue hafter
    cases h
    obtain ⟨hs, ht⟩ := readCount_steady (Prod.ext hvalue hafter)
    refine ⟨(List.suffix_cons _ _).trans hs, fun t => ?_⟩
    unfold readGreatest
    rw [ht t]
    rfl
  · cases h

theorem readMost_steady (least : Nat) : Steady (readMost least) s := by
  intro most rest h
  rcases s with _ | ⟨c, s⟩
  · cases h
  have hcons := List.suffix_cons c s
  simp only [readMost, List.cons_append] at h ⊢
  split at h
  · rename_i hcomma
    split at h
    · rename_i hclose
      obtain ⟨more, rfl⟩ := List.head?_eq_some_iff.mp hclose
      cases h
      exact ⟨(List.suffix_cons _ _).trans hcons, fun t => by simp [hcomma]⟩
    · rename_i hclose
      obtain ⟨hs, ht⟩ := readGreatest_steady _ _ h
      refine ⟨hs.trans hcons, fun t => ?_⟩
      rcases s with _ | ⟨d, s⟩
      · cases h
      · have hd : d ≠ '\x7d' := by simpa using hclose
        rw [← ht t]
        simp [hcomma, hd]
  · split at h
    · rename_i hcomma hclose
      cases h
      exact ⟨hcons, fun t => by simp [hclose]⟩
    · cases h

theorem readBounds_inside {most : Option Nat} {lazily : Bool}
    (h : readBounds false s = some (least, most, lazily, rest)) :
    rest <:+ s ∧ ∀ t, readBounds false (s ++ ')' :: t) = some (least, most, lazily, rest ++ ')' :: t) := by
  rw [readBounds_eq] at h
  obtain ⟨least', hleast, h⟩ := Option.bind_eq_some_iff.mp h
  obtain ⟨⟨most', after⟩, hmost, h⟩ := Option.bind_eq_some_iff.mp h
  split at h
  · cases h
  rename_i hrange
  obtain ⟨d, behind, hbehind⟩ : ∃ d behind, (readCount false s).2 = d :: behind := by
    cases hcount : (readCount false s).2 with
    | nil =>
      rw [hcount] at hmost
      cases hmost
    | cons d behind => exact ⟨d, behind, rfl⟩
  obtain ⟨hs, ht⟩ := readCount_steady (Prod.ext hleast hbehind)
  rw [hbehind] at hmost
  obtain ⟨hs', ht'⟩ := readMost_steady least' _ _ hmost
  obtain ⟨rfl, rfl, hlazy⟩ : least' = least ∧ most' = most ∧ readLazy after = (lazily, rest) := by simpa using h
  have hsuffix := readLazy_suffix after
  rw [hlazy] at hsuffix
  refine ⟨(hsuffix.trans hs').trans hs, fun t => ?_⟩
  rw [readBounds_eq, ht, Option.bind_some, ht', Option.bind_some, if_neg hrange, readLazy_inside, hlazy]

-- ---------------------------------------------------------------------------
-- Boundaries and other escapes
-- ---------------------------------------------------------------------------

theorem readBoundaryName_eq (h : s.length ≤ fuel) :
    readBoundaryName false fuel s = (s.takeWhile isBoundaryLetter, s.dropWhile isBoundaryLetter) :=
  read_eq_span (fun fuel => by cases fuel <;> rfl) (fun _ _ _ => rfl) h

def namedBoundary? (name : List Char) : Option Look :=
  match String.ofList name with
  | "start" => some .wordStart
  | "end" => some .wordEnd
  | "start-half" => some .wordStartHalf
  | "end-half" => some .wordEndHalf
  | _ => none

theorem readBoundary_named (hc : isBoundaryLetter c) : readBoundary false ('\x7b' :: c :: s) =
    match (c :: s).dropWhile isBoundaryLetter with
    | '\x7d' :: after => (namedBoundary? ((c :: s).takeWhile isBoundaryLetter)).map (·, after)
    | _ => none := by
  have hname : readBoundaryName false (s.length + 1) (c :: s) =
      ((c :: s).takeWhile isBoundaryLetter, (c :: s).dropWhile isBoundaryLetter) :=
    readBoundaryName_eq (Nat.le_refl _)
  rw [readBoundary]
  simp only [skipBlanks_false, hc, if_true, hname]
  generalize (c :: s).takeWhile isBoundaryLetter = name
  rcases (c :: s).dropWhile isBoundaryLetter with _ | ⟨d, after⟩
  · rfl
  · by_cases hd : d = '\x7d'
    · subst hd
      simp only [namedBoundary?]
      split <;> simp [*]
    · simp [hd]

theorem readBoundary_inside : SteadyInside (readBoundary false) s := by
  intro l rest h
  rcases s with _ | ⟨c, s⟩
  · cases h
    exact ⟨List.suffix_rfl, fun t => rfl⟩
  by_cases hc : c = '\x7b'
  · subst hc
    rcases s with _ | ⟨d, s⟩
    · cases h
    cases hd : isBoundaryLetter d with
    | false =>
      simp only [readBoundary, skipBlanks_false, hd, Bool.false_eq_true, if_false] at h
      cases h
      exact ⟨List.suffix_rfl, fun t => by simp [readBoundary, hd]⟩
    | true =>
      rw [readBoundary_named hd] at h
      split at h
      · rename_i after heq
        obtain ⟨l', hl, he⟩ := Option.map_eq_some_iff.mp h
        cases he
        have hsuffix := List.dropWhile_suffix (l := d :: s) isBoundaryLetter
        rw [heq] at hsuffix
        refine ⟨((List.suffix_cons _ _).trans hsuffix).trans (List.suffix_cons _ _), fun t => ?_⟩
        obtain ⟨hdrop, htake⟩ := dropWhile_append_of_cons heq (')' :: t)
        rw [List.cons_append, List.cons_append, readBoundary_named hd, ← List.cons_append, hdrop, htake, hl]
        rfl
      · cases h
  · have hother (s : List Char) : readBoundary false (c :: s) = some (.wordBoundary, c :: s) := by
      simp [readBoundary, hc]
    rw [hother] at h
    cases h
    exact ⟨List.suffix_rfl, fun t => hother _⟩

theorem readEscape_place (hc : c ≠ 'b') (h : readEscape false (c :: s) = some (.place l, rest)) :
    rest = s ∧ ∀ t, readEscape false (c :: t) = some (.place l, t) := by
  by_cases hletter : c ∈ "xuUpPaftnrvAzbB<>".toList
  · simp only [String.reduceToList, List.mem_cons, List.not_mem_nil, or_false] at hletter
    rcases hletter with rfl | rfl | rfl | rfl | rfl | rfl | rfl | rfl | rfl | rfl | rfl | rfl | rfl | rfl | hletter
    iterate 5
      obtain ⟨x, -, he⟩ := Option.map_eq_some_iff.mp h
      cases he
    iterate 6 cases h
    iterate 2
      cases h
      exact ⟨rfl, fun t => rfl⟩
    · exact absurd rfl hc
    rcases hletter with rfl | rfl | rfl
    all_goals
      cases h
      exact ⟨rfl, fun t => rfl⟩
  · rw [readEscape_plain hletter] at h
    obtain ⟨rfl, ht⟩ := plainEscape_steady h
    exact ⟨rfl, fun t => (readEscape_plain hletter).trans (ht t)⟩

theorem readEscape_inside : SteadyInside (readEscape false) s := by
  intro a rest h
  rcases s with _ | ⟨c, s⟩
  · cases h
  have hcons := List.suffix_cons c s
  by_cases hc : c = 'b'
  · subst hc
    obtain ⟨⟨l, after⟩, hl, he⟩ := Option.map_eq_some_iff.mp h
    cases he
    obtain ⟨hs, ht⟩ := readBoundary_inside _ _ hl
    refine ⟨hs.trans hcons, fun t => ?_⟩
    simp only [List.cons_append, readEscape, ht]
    rfl
  · cases a with
    | one d => exact ((readEscape_steady h (by simp))).imp_right fun ht t => ht _
    | several set => exact ((readEscape_steady h (by simp))).imp_right fun ht t => ht _
    | place l =>
      obtain ⟨rfl, ht⟩ := readEscape_place hc h
      exact ⟨hcons, fun t => ht _⟩

-- ---------------------------------------------------------------------------
-- Tokens
-- ---------------------------------------------------------------------------

/-- What a token does that opens no group of its own number. -/
inductive Token where
  | group (flags : Flags)
  | switches (flags : Flags)
  | close
  | branch
  | char (set : CharSet) (folded : Bool)
  | look (condition : Look)
  | repeated (least : Nat) (most : Option Nat) (lazily : Bool)

def Token.apply (st : Reader) : Token → Option Reader
  | .group flags => some (st.openGroup flags none)
  | .switches flags => some { st with flags, parts := .switches :: st.parts }
  | .close => st.closeGroup
  | .branch => some st.nextBranch
  | .char set folded => some (st.push (.char set folded))
  | .look condition => some (st.push (.look condition))
  | .repeated least most lazily => st.repeatLast least most lazily

def Token.ofAtom (flags : Flags) : Atom → Token
  | .one c => .char (.single c) flags.ignoreCase
  | .several set => .char set flags.ignoreCase
  | .place condition => .look condition

theorem apply_ofAtom (st : Reader) (a : Atom) : (Token.ofAtom st.flags a).apply st = some (st.atom a) := by
  cases a <;> rfl

/-- The same change under other switches. Verbose mode, which decides how the text behind is read, is the
same. -/
inductive Token.Alike : Token → Token → Prop
  | group {flags flags' : Flags} (h : flags.verbose = flags'.verbose) : Alike (.group flags) (.group flags')
  | switches {flags flags' : Flags} (h : flags.verbose = flags'.verbose) : Alike (.switches flags) (.switches flags')
  | close : Alike .close .close
  | branch : Alike .branch .branch
  | char {set set' : CharSet} {folded folded' : Bool} : Alike (.char set folded) (.char set' folded')
  | look {condition condition' : Look} : Alike (.look condition) (.look condition')
  | repeated {least : Nat} {most : Option Nat} {lazily : Bool} :
      Alike (.repeated least most lazily) (.repeated least most lazily)

theorem alike_ofAtom (flags flags' : Flags) (a : Atom) : (Token.ofAtom flags a).Alike (.ofAtom flags' a) := by
  cases a with
  | one c => exact .char
  | several set => exact .char
  | place condition => exact .look

theorem readGroup_switches (hst : st.flags.verbose = false)
    (h : readSwitches st.flags [] true s = some (flags, colon, rest)) :
    readGroup st ('?' :: s) = ((if colon then Token.group flags else .switches flags).apply st).map (·, rest) := by
  rcases s with _ | ⟨c, s⟩
  · cases h
  have hangle : c ≠ '<' := by
    rintro rfl
    simp [readSwitches, Flags.set?] at h
  have hname : c ≠ 'P' := by
    rintro rfl
    simp [readSwitches, Flags.set?] at h
  cases colon <;> simp [readGroup, hst, hangle, hname, h, Token.apply]

theorem groups_openNamed (h : openNamed st s = some (st', rest)) : st'.groups = st.groups + 1 := by
  simp only [openNamed, bind, Option.bind_eq_some_iff] at h
  obtain ⟨⟨name, after⟩, -, h⟩ := h
  split at h
  · cases h
  · cases h
    rfl

theorem readGroup_eq_some (hst : st.flags.verbose = false) (h : readGroup st s = some (st', rest))
    (hgroups : st'.groups = st.groups) :
    ∃ more flags colon, s = '?' :: more ∧ readSwitches st.flags [] true more = some (flags, colon, rest) := by
  unfold readGroup at h
  simp only [hst, skipBlanks_false] at h
  split at h
  · have := groups_openNamed h
    omega
  · cases h
  · cases h
  · have := groups_openNamed h
    omega
  · rename_i more _ _ _ _
    split at h
    · cases h
    · rename_i hread
      cases h
      exact ⟨more, _, true, rfl, hread⟩
    · rename_i hread
      cases h
      exact ⟨more, _, false, rfl, hread⟩
  · cases h
    have hopen : st.openCapture.groups = st.groups + 1 := rfl
    omega

/-- The token does the same to every reader with these switches, whatever follows a closing
parenthesis. -/
def Token.Spelled (token : Token) (flags : Flags) (c : Char) (s rest : List Char) : Prop :=
  ∀ (st : Reader) t, st.flags = flags →
    readToken st c (s ++ ')' :: t) = (token.apply st).map (·, rest ++ ')' :: t)

theorem spelled_switches (hflags : flags.verbose = false)
    (h : readSwitches flags [] true s = some (flags', colon, rest)) :
    (if colon then Token.group flags' else .switches flags').Spelled flags '(' ('?' :: s) rest := by
  rintro st t rfl
  exact readGroup_switches hflags ((readSwitches_steady h).2 _)

theorem spelled_class {set : CharSet} (hflags : flags.verbose = false) (h : readClass false s = some (set, rest)) :
    (Token.char set flags.ignoreCase).Spelled flags '[' s rest := by
  rintro st t rfl
  simp only [readToken, hflags, (readClass_steady _ _ h).2]
  rfl

theorem spelled_repeated (flags : Flags) (least : Nat) (most : Option Nat) (s : List Char)
    (h : ∀ (st : Reader) (s : List Char), st.flags = flags → readToken st c s =
      (st.repeatLast least most (readLazy s).1).map (·, (readLazy s).2)) :
    (Token.repeated least most (readLazy s).1).Spelled flags c s (readLazy s).2 := by
  intro st t hst
  rw [h st _ hst, readLazy_inside]
  rfl

theorem spelled_bounds {most : Option Nat} {lazily : Bool} (hflags : flags.verbose = false)
    (h : readBounds false s = some (least, most, lazily, rest)) :
    (Token.repeated least most lazily).Spelled flags '\x7b' s rest := by
  rintro st t rfl
  simp only [readToken, hflags, (readBounds_inside h).2]
  rfl

theorem spelled_escape {a : Atom} (hflags : flags.verbose = false) (h : readEscape false s = some (a, rest)) :
    (Token.ofAtom flags a).Spelled flags '\\' s rest := by
  rintro st t rfl
  rw [apply_ofAtom]
  simp only [readToken, hflags, (readEscape_inside _ _ h).2]
  rfl

structure ReadsToken (token : Flags → Token) (st st' : Reader) (c : Char) (s rest : List Char) : Prop where
  applies : (token st.flags).apply st = some st'
  suffix : rest <:+ s
  alike : ∀ flags, flags.verbose = false → (token st.flags).Alike (token flags)
  spelled : ∀ flags, flags.verbose = false → (token flags).Spelled flags c s rest

theorem readsToken_group (hst : st.flags.verbose = false) (h : readGroup st s = some (st', rest)) (hgroups : st'.groups = st.groups) :
    ∃ token, ReadsToken token st st' '(' s rest := by
  obtain ⟨more, flags, colon, rfl, hread⟩ := readGroup_eq_some hst h hgroups
  rw [readGroup_switches hst hread] at h
  obtain ⟨_, happly, he⟩ := Option.map_eq_some_iff.mp h
  cases he
  obtain ⟨edit, rfl, hedit, hverbose⟩ := readSwitches_eq_edit hread
  refine ⟨fun flags => if colon then .group (edit flags) else .switches (edit flags), happly,
    (readSwitches_steady hread).1.trans (List.suffix_cons _ _), fun flags hflags => ?_,
    fun flags hflags => spelled_switches hflags (hedit flags)⟩
  cases colon with
  | true => exact .group (hverbose _ _ (hst.trans hflags.symm))
  | false => exact .switches (hverbose _ _ (hst.trans hflags.symm))

theorem readsToken_class {set : CharSet} (h : readClass false s = some (set, rest)) :
    ReadsToken (fun flags => .char set flags.ignoreCase) st (st.push (.char set st.flags.ignoreCase)) '[' s rest :=
  ⟨rfl, (readClass_steady _ _ h).1, fun _ _ => .char, fun _ hflags => spelled_class hflags h⟩

theorem readsToken_repeated {most : Option Nat} (hread : ∀ (st : Reader) (s : List Char), readToken st c s =
    (st.repeatLast least most (readLazy s).1).map (·, (readLazy s).2))
    (h : readToken st c s = some (st', rest)) : ∃ token, ReadsToken token st st' c s rest := by
  rw [hread] at h
  obtain ⟨_, hrepeat, he⟩ := Option.map_eq_some_iff.mp h
  cases he
  exact ⟨fun _ => .repeated least most (readLazy s).1, hrepeat, readLazy_suffix s, fun _ _ => .repeated,
    fun _ _ => spelled_repeated _ _ _ s fun st s _ => hread st s⟩

theorem readsToken_bounds {most : Option Nat} {lazily : Bool} (h : readBounds false s = some (least, most, lazily, rest))
    (hrepeat : st.repeatLast least most lazily = some st') :
    ReadsToken (fun _ => .repeated least most lazily) st st' '\x7b' s rest :=
  ⟨hrepeat, (readBounds_inside h).1, fun _ _ => .repeated, fun _ hflags => spelled_bounds hflags h⟩

theorem readsToken_escape {a : Atom} (h : readEscape false s = some (a, rest)) :
    ReadsToken (fun flags => .ofAtom flags a) st (st.atom a) '\\' s rest :=
  ⟨apply_ofAtom st a, (readEscape_inside _ _ h).1, fun flags _ => alike_ofAtom _ flags a,
    fun _ hflags => spelled_escape hflags h⟩

theorem readToken_eq_some (hst : st.flags.verbose = false) (h : readToken st c s = some (st', rest))
    (hgroups : st'.groups = st.groups) : ∃ token, ReadsToken token st st' c s rest := by
  unfold readToken at h
  split at h
  · exact readsToken_group hst h hgroups
  · obtain ⟨_, hclose, he⟩ := Option.map_eq_some_iff.mp h
    cases he
    exact ⟨fun _ => .close, hclose, List.suffix_rfl, fun _ _ => .close, fun _ _ _ _ _ => rfl⟩
  · cases h
    exact ⟨fun _ => .branch, rfl, List.suffix_rfl, fun _ _ => .branch, fun _ _ _ _ _ => rfl⟩
  · rw [hst] at h
    obtain ⟨⟨set, after⟩, hclass, he⟩ := Option.map_eq_some_iff.mp h
    cases he
    exact ⟨_, readsToken_class hclass⟩
  · exact readsToken_repeated (fun _ _ => rfl) h
  · exact readsToken_repeated (fun _ _ => rfl) h
  · exact readsToken_repeated (fun _ _ => rfl) h
  · rw [hst] at h
    obtain ⟨⟨least, most, lazily, after⟩, hbounds, h⟩ := Option.bind_eq_some_iff.mp h
    obtain ⟨_, hrepeat, he⟩ := Option.map_eq_some_iff.mp h
    cases he
    exact ⟨_, readsToken_bounds hbounds hrepeat⟩
  · rw [hst] at h
    obtain ⟨⟨a, after⟩, hescape, he⟩ := Option.map_eq_some_iff.mp h
    cases he
    exact ⟨_, readsToken_escape hescape⟩
  · cases h
    exact ⟨fun flags => .char (Reader.dot flags) false, rfl, List.suffix_rfl, fun _ _ => .char,
      fun _ _ _ _ hst₂ => by rw [← hst₂]; rfl⟩
  · cases h
    exact ⟨fun flags => .look (Reader.lineStart flags), rfl, List.suffix_rfl, fun _ _ => .look,
      fun _ _ _ _ hst₂ => by rw [← hst₂]; rfl⟩
  · cases h
    exact ⟨fun flags => .look (Reader.lineEnd flags), rfl, List.suffix_rfl, fun _ _ => .look,
      fun _ _ _ _ hst₂ => by rw [← hst₂]; rfl⟩
  · cases h
    refine ⟨fun flags => .char (.single c) flags.ignoreCase, rfl, List.suffix_rfl, fun _ _ => .char, fun _ _ st₂ t hst₂ => ?_⟩
    rw [readToken, ← hst₂]
    · rfl
    all_goals assumption

end ContestTests.Regex
