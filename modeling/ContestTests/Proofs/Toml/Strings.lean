import ContestTests.Toml.Writer

/-!
# Strings are read as they were written

Whatever a text holds, the form in which it is written reads as that text, and reading stops right behind
it. Only a quote must not follow, because up to two more of them would belong to a long string.
-/

namespace ContestTests.Toml

open ContestTests.Regex (hexDigit? charOfNumber?)

variable {c : Char} {s rest code : List Char} {long : Bool} {fuel quotes : Nat}

-- ---------------------------------------------------------------------------
-- Escapes
-- ---------------------------------------------------------------------------

theorem hexChar?_code : ∀ n < 128, hexChar? ['0', '0', hexDigit (n / 16), hexDigit (n % 16)] = some (Char.ofNat n) := by
  decide

theorem isControl_iff : isControl c ↔ c.toNat < 0x20 ∨ c.toNat = 0x7F := by
  simp [isControl]

structure Escapes (code : List Char) (c : Char) : Prop where
  reads : ∀ rest, readEscape (code ++ rest) = some (c, rest)
  noBreak : ∀ rest, readNewline (skipSpaces (code ++ rest)) = none

theorem escapes_of_head {e : Char} (h : ∀ rest, readEscape (e :: s ++ rest) = some (c, rest)) (hspace : isSpace e = false)
    (hline : e ≠ '\n') (hreturn : e ≠ '\r') : Escapes (e :: s) c := by
  refine ⟨h, fun rest => ?_⟩
  rw [skipSpaces, List.cons_append, List.dropWhile_cons_of_neg (by simp [hspace])]
  simp [readNewline, hline, hreturn]

theorem escapes_hex (h : isControl c) : Escapes ['u', '0', '0', hexDigit (c.toNat / 16), hexDigit (c.toNat % 16)] c := by
  have hlt : c.toNat < 128 := by
    rcases isControl_iff.mp h with h | h
    · omega
    · omega
  refine escapes_of_head (fun rest => ?_) rfl (by decide) (by decide)
  have hcode := hexChar?_code c.toNat hlt
  rw [Char.ofNat_toNat] at hcode
  simp [readEscape, hcode]

theorem escapes_of_escapeOf (h : escapeOf long c = some code) : ∃ e, code = '\\' :: e ∧ Escapes e c := by
  have hletter (e : Char) (hreads : ∀ rest, readEscape (e :: rest) = some (c, rest)) (hspace : isSpace e = false)
      (hline : e ≠ '\n') (hreturn : e ≠ '\r') (hcode : some ['\\', e] = some code) :
      ∃ e, code = '\\' :: e ∧ Escapes e c := by
    cases hcode
    exact ⟨[e], rfl, escapes_of_head hreads hspace hline hreturn⟩
  unfold escapeOf at h
  split at h
  · exact hletter 'b' (fun rest => rfl) rfl (by decide) (by decide) h
  · exact hletter 't' (fun rest => rfl) rfl (by decide) (by decide) h
  · split at h
    · cases h
    · exact hletter 'n' (fun rest => rfl) rfl (by decide) (by decide) h
  · exact hletter 'f' (fun rest => rfl) rfl (by decide) (by decide) h
  · exact hletter 'r' (fun rest => rfl) rfl (by decide) (by decide) h
  · exact hletter '\\' (fun rest => rfl) rfl (by decide) (by decide) h
  · split at h
    · rename_i hcontrol
      cases h
      exact ⟨_, rfl, escapes_hex hcontrol⟩
    · cases h

structure Plain (long : Bool) (c : Char) : Prop where
  comment : c ≠ '\n' → isCommentChar c
  line : c = '\n' → long
  backslash : c ≠ '\\'
  carriage : c ≠ '\r'

theorem plain_of_escapeOf (h : escapeOf long c = none) : Plain long c := by
  unfold escapeOf at h
  split at h
  · cases h
  · cases h
  · split at h
    · rename_i hlong
      exact ⟨fun hne => absurd rfl hne, fun _ => hlong, by decide, by decide⟩
    · cases h
  · cases h
  · cases h
  · cases h
  · rename_i hline _ hreturn hbackslash
    split at h
    · cases h
    · rename_i hcontrol
      exact ⟨fun _ => by simp [isCommentChar, hcontrol], fun he => absurd he hline, hbackslash, hreturn⟩

-- ---------------------------------------------------------------------------
-- In quotes
-- ---------------------------------------------------------------------------

theorem escapeText_quote : escapeText long quotes ('"' :: s) =
    if long && quotes < 2 then '"' :: escapeText long (quotes + 1) s else '\\' :: '"' :: escapeText long 0 s := by
  rw [escapeText]

theorem escapeText_other (hquote : c ≠ '"') :
    escapeText long quotes (c :: s) = (escapeOf long c).getD [c] ++ escapeText long 0 s := by
  rw [escapeText]
  exact hquote

theorem escapes_quote : Escapes ['"'] '"' :=
  escapes_of_head (fun rest => rfl) rfl (by decide) (by decide)

theorem readBasic_escape {e : List Char} (he : Escapes e c) :
    readBasic (fuel + 1) ('\\' :: (e ++ rest)) = (readBasic fuel rest).map fun (text, rest) => (c :: text, rest) := by
  simp only [readBasic, he.reads, Option.bind_eq_bind, Option.bind_some]
  cases readBasic fuel rest <;> rfl

theorem readBasic_quote : readBasic (fuel + 1) ('\\' :: '"' :: rest) =
    (readBasic fuel rest).map fun (text, rest) => ('"' :: text, rest) :=
  readBasic_escape escapes_quote

theorem readBasic_plain (hplain : Plain false c) (hquote : c ≠ '"') :
    readBasic (fuel + 1) (c :: rest) = (readBasic fuel rest).map fun (text, rest) => (c :: text, rest) := by
  have hline : c ≠ '\n' := fun he => absurd (hplain.line he) (by simp)
  rw [readBasic, if_pos (hplain.comment hline)]
  · exact hquote
  · exact hplain.backslash

theorem readBasic_escapeText (hfuel : s.length < fuel) :
    readBasic fuel (escapeText false quotes s ++ '"' :: rest) = some (s, rest) := by
  induction s generalizing fuel quotes with
  | nil =>
    obtain ⟨fuel, rfl⟩ : ∃ n, fuel = n + 1 := ⟨fuel - 1, by omega⟩
    rfl
  | cons c s ih =>
    obtain ⟨fuel, rfl⟩ : ∃ n, fuel = n + 1 := ⟨fuel - 1, by omega⟩
    have hrest (quotes : Nat) := @ih fuel quotes (by simpa using hfuel)
    by_cases hquote : c = '"'
    · subst hquote
      rw [escapeText_quote, if_neg (by simp), List.cons_append, List.cons_append, readBasic_quote, hrest]
      rfl
    · rw [escapeText_other hquote]
      cases hcode : escapeOf false c with
      | some code =>
        obtain ⟨e, rfl, he⟩ := escapes_of_escapeOf hcode
        rw [Option.getD_some, List.append_assoc, List.cons_append, readBasic_escape he, hrest]
        rfl
      | none =>
        rw [Option.getD_none, List.append_assoc, List.singleton_append, readBasic_plain (plain_of_escapeOf hcode) hquote,
          hrest]
        rfl

-- ---------------------------------------------------------------------------
-- In triple quotes
-- ---------------------------------------------------------------------------

theorem readLongBasic_escape {e : List Char} (he : Escapes e c) : readLongBasic (fuel + 1) ('\\' :: (e ++ rest)) =
    (readLongBasic fuel rest).map fun (text, rest) => (c :: text, rest) := by
  simp only [readLongBasic, he.noBreak, he.reads, Option.bind_eq_bind, Option.bind_some]
  cases readLongBasic fuel rest <;> rfl

theorem readLongBasic_quote : readLongBasic (fuel + 1) ('\\' :: '"' :: rest) =
    (readLongBasic fuel rest).map fun (text, rest) => ('"' :: text, rest) :=
  readLongBasic_escape escapes_quote

theorem readLongBasic_plain (hplain : Plain true c) (hquote : c ≠ '"') : readLongBasic (fuel + 1) (c :: rest) =
    (readLongBasic fuel rest).map fun (text, rest) => (c :: text, rest) := by
  have hcomment : c = '\n' ∨ isCommentChar c := Decidable.or_iff_not_imp_left.mpr hplain.comment
  rw [readLongBasic, if_pos hcomment]
  · rintro more rfl
    exact absurd rfl hquote
  · exact hplain.backslash
  · exact fun more he _ => hplain.carriage he

def Unquoted (quote : Char) (s : List Char) : Prop := s.head? ≠ some quote

theorem unquoted_cons {quote : Char} : Unquoted quote (c :: s) ↔ c ≠ quote := by
  simp [Unquoted]

theorem closeTriple_none {quote : Char} (h : Unquoted quote rest) : closeTriple quote rest = ([], rest) := by
  match rest with
  | [] => rfl
  | [a] => simp [closeTriple, unquoted_cons.mp h]
  | a :: b :: rest => simp [closeTriple, unquoted_cons.mp h]

theorem closeTriple_one {quote : Char} (h : Unquoted quote rest) : closeTriple quote (quote :: rest) = ([quote], rest) := by
  match rest with
  | [] => simp [closeTriple]
  | b :: rest => simp [closeTriple, unquoted_cons.mp h]

theorem closeTriple_two {quote : Char} : closeTriple quote (quote :: quote :: rest) = ([quote, quote], rest) := by
  simp [closeTriple]

theorem readLongBasic_single (h : ∀ more, rest ≠ '"' :: '"' :: more) : readLongBasic (fuel + 1) ('"' :: rest) =
    (readLongBasic fuel rest).map fun (text, rest) => ('"' :: text, rest) := by
  rw [readLongBasic, if_pos (.inr (by decide))]
  · exact fun more _ he => h more he
  · decide
  · exact fun more he => absurd he (by decide)

/-- After two quotes the next one is escaped, so that it does not close the text. -/
theorem unquoted_escapeText (hs : s ≠ []) (hquotes : s.head? = some '"' → 2 ≤ quotes) :
    Unquoted '"' (escapeText true quotes s ++ rest) := by
  obtain ⟨c, s, rfl⟩ := List.exists_cons_of_ne_nil hs
  by_cases hquote : c = '"'
  · subst hquote
    have hlimit : ¬ quotes < 2 := Nat.not_lt.mpr (hquotes rfl)
    rw [escapeText_quote, decide_eq_false hlimit, if_neg (by simp)]
    exact unquoted_cons.mpr (by decide)
  · rw [escapeText_other hquote]
    cases hcode : escapeOf true c with
    | some code =>
      obtain ⟨e, rfl, -⟩ := escapes_of_escapeOf hcode
      exact unquoted_cons.mpr (by decide)
    | none => exact unquoted_cons.mpr hquote

theorem not_two_quotes {more : List Char} (hs : s ≠ []) (hpair : ¬ (quotes = 0 ∧ s = ['"'])) :
    escapeText true (quotes + 1) s ++ rest ≠ '"' :: '"' :: more := by
  intro he
  by_cases hfirst : quotes = 0 ∧ s.head? = some '"'
  · obtain ⟨rfl, hhead⟩ := hfirst
    obtain ⟨s, rfl⟩ := List.head?_eq_some_iff.mp hhead
    have hrest : s ≠ [] := fun hnil => hpair ⟨rfl, by rw [hnil]⟩
    rw [escapeText_quote, if_pos (by decide), List.cons_append, List.cons.injEq] at he
    have hsecond : Unquoted '"' (escapeText true 2 s ++ rest) := unquoted_escapeText hrest fun _ => Nat.le_refl 2
    rw [he.2] at hsecond
    exact unquoted_cons.mp hsecond rfl
  · have hunquoted : Unquoted '"' (escapeText true (quotes + 1) s ++ rest) := unquoted_escapeText hs fun hhead => by
      have hquotes : quotes ≠ 0 := fun hzero => hfirst ⟨hzero, hhead⟩
      omega
    rw [he] at hunquoted
    exact unquoted_cons.mp hunquoted rfl

theorem readLongBasic_escapeText (hrest : Unquoted '"' rest) (hfuel : s.length < fuel) :
    readLongBasic fuel (escapeText true quotes s ++ '"' :: '"' :: '"' :: rest) = some (s, rest) := by
  induction s generalizing fuel quotes with
  | nil =>
    obtain ⟨fuel, rfl⟩ : ∃ n, fuel = n + 1 := ⟨fuel - 1, by omega⟩
    rw [escapeText, List.nil_append, readLongBasic, closeTriple_none hrest]
  | cons c s ih =>
    obtain ⟨fuel, rfl⟩ : ∃ n, fuel = n + 1 := ⟨fuel - 1, by omega⟩
    have hmore (quotes : Nat) := @ih fuel quotes (by simpa using hfuel)
    by_cases hquote : c = '"'
    · subst hquote
      rw [escapeText_quote]
      split
      · rename_i hlimit
        rw [Bool.true_and, decide_eq_true_iff] at hlimit
        -- Up to two quotes at the end of the text run into those that close it.
        by_cases hlast : s = []
        · subst hlast
          rw [escapeText, List.singleton_append, readLongBasic, closeTriple_one hrest]
        by_cases hpair : quotes = 0 ∧ s = ['"']
        · obtain ⟨rfl, rfl⟩ := hpair
          rw [escapeText_quote, if_pos (by decide), escapeText, List.cons_append, List.singleton_append, readLongBasic,
            closeTriple_two]
        rw [List.cons_append, readLongBasic_single, hmore]
        · rfl
        · exact fun more he => not_two_quotes hlast hpair he
      · rw [List.cons_append, List.cons_append, readLongBasic_quote, hmore]
        rfl
    · rw [escapeText_other hquote]
      cases hcode : escapeOf true c with
      | some code =>
        obtain ⟨e, rfl, he⟩ := escapes_of_escapeOf hcode
        rw [Option.getD_some, List.append_assoc, List.cons_append, readLongBasic_escape he, hmore]
        rfl
      | none =>
        rw [Option.getD_none, List.append_assoc, List.singleton_append,
          readLongBasic_plain (plain_of_escapeOf hcode) hquote, hmore]
        rfl

-- ---------------------------------------------------------------------------
-- In apostrophes
-- ---------------------------------------------------------------------------

def Literal (s : List Char) : Prop := ∀ c ∈ s, needsEscape c = false

theorem isCommentChar_of_not_needsEscape (h : needsEscape c = false) (hline : c ≠ '\n') : isCommentChar c := by
  simp only [needsEscape, Bool.and_eq_false_iff, bne_eq_false_iff_eq] at h
  rcases h with (h | rfl) | rfl
  · simp [isCommentChar, h]
  · rfl
  · exact absurd rfl hline

theorem ne_return_of_not_needsEscape (h : needsEscape c = false) : c ≠ '\r' := by
  rintro rfl
  revert h
  decide

theorem readLiteral_text (hliteral : Literal s) (hquote : '\'' ∉ s) (hline : '\n' ∉ s) :
    readLiteral (s ++ '\'' :: rest) = some (s, rest) := by
  induction s with
  | nil => rfl
  | cons c s ih =>
    obtain ⟨hc, hs⟩ := List.forall_mem_cons.mp hliteral
    obtain ⟨hquote, hquotes⟩ := List.ne_and_not_mem_of_not_mem_cons hquote
    obtain ⟨hline, hlines⟩ := List.ne_and_not_mem_of_not_mem_cons hline
    have hcomment := isCommentChar_of_not_needsEscape hc (Ne.symm hline)
    rw [List.cons_append, readLiteral, if_pos hcomment, ih hs hquotes hlines]
    · rfl
    · exact fun he => hquote he.symm

theorem longestRun_go_quote {run : Nat} {quote : Char} :
    longestRun.go quote run (quote :: s) = longestRun.go quote (run + 1) s := by
  rw [longestRun.go, if_pos rfl]

theorem longestRun_go_other {run : Nat} {quote : Char} (h : c ≠ quote) :
    longestRun.go quote run (c :: s) = max run (longestRun.go quote 0 s) := by
  rw [longestRun.go, if_neg h]

theorem le_longestRun_go {run : Nat} {quote : Char} : run ≤ longestRun.go quote run s := by
  induction s generalizing run with
  | nil => exact Nat.le_refl run
  | cons c s ih =>
    by_cases h : c = quote
    · subst h
      rw [longestRun_go_quote]
      exact Nat.le_of_succ_le ih
    · rw [longestRun_go_other h]
      exact Nat.le_max_left _ _

theorem not_mem_of_longestRun {run : Nat} {quote : Char} (h : longestRun.go quote run s = 0) : quote ∉ s := by
  induction s generalizing run with
  | nil => exact List.not_mem_nil
  | cons c s ih =>
    by_cases hc : c = quote
    · subst hc
      rw [longestRun_go_quote] at h
      have hrun := @le_longestRun_go s (run + 1) c
      omega
    · rw [longestRun_go_other hc] at h
      exact List.not_mem_cons_of_ne_of_not_mem (Ne.symm hc) (ih (Nat.max_eq_zero_iff.mp h).2)

theorem readLongLiteral_single (h : ∀ more, rest ≠ '\'' :: '\'' :: more) : readLongLiteral ('\'' :: rest) =
    (readLongLiteral rest).map fun (text, rest) => ('\'' :: text, rest) := by
  rw [readLongLiteral, if_pos (.inr (by decide))]
  · exact fun more _ he => h more he
  · exact fun more he => absurd he (by decide)

theorem readLongLiteral_plain (hliteral : needsEscape c = false) (hquote : c ≠ '\'') :
    readLongLiteral (c :: rest) = (readLongLiteral rest).map fun (text, rest) => (c :: text, rest) := by
  have hcomment : c = '\n' ∨ isCommentChar c :=
    Decidable.or_iff_not_imp_left.mpr (isCommentChar_of_not_needsEscape hliteral)
  rw [readLongLiteral, if_pos hcomment]
  · rintro more rfl
    exact absurd rfl hquote
  · exact fun more he _ => ne_return_of_not_needsEscape hliteral he

theorem readLongLiteral_text {run : Nat} (hrest : Unquoted '\'' rest) (hliteral : Literal s)
    (hrun : longestRun.go '\'' run s ≤ 2) :
    readLongLiteral (s ++ '\'' :: '\'' :: '\'' :: rest) = some (s, rest) := by
  induction s generalizing run with
  | nil => rw [List.nil_append, readLongLiteral, closeTriple_none hrest]
  | cons c s ih =>
    obtain ⟨hc, hs⟩ := List.forall_mem_cons.mp hliteral
    by_cases hquote : c = '\''
    · subst hquote
      rw [longestRun_go_quote] at hrun
      by_cases hlast : s = []
      · subst hlast
        rw [List.singleton_append, readLongLiteral, closeTriple_one hrest]
      by_cases hpair : s = ['\'']
      · subst hpair
        rw [List.cons_append, List.singleton_append, readLongLiteral, closeTriple_two]
      rw [List.cons_append, readLongLiteral_single, ih hs hrun]
      · rfl
      · -- A third apostrophe would make the run too long.
        intro more he
        rcases s with _ | ⟨d, _ | ⟨e, s⟩⟩
        · exact hlast rfl
        · cases he
          exact hpair rfl
        · cases he
          rw [longestRun_go_quote, longestRun_go_quote] at hrun
          have hthree := @le_longestRun_go s (run + 1 + 1 + 1) '\''
          omega
    · rw [longestRun_go_other hquote] at hrun
      rw [List.cons_append, readLongLiteral_plain hc hquote, ih hs (Nat.le_trans (Nat.le_max_right _ _) hrun)]
      rfl

-- ---------------------------------------------------------------------------
-- Any form
-- ---------------------------------------------------------------------------

theorem literal_of_any (h : s.any needsEscape = false) : Literal s := fun c hc =>
  Bool.eq_false_iff.mpr (List.any_eq_false.mp h c hc)

/-- The form without escapes is taken only where it reads as the text. -/
theorem quotingOf_cases (s : List Char) : quotingOf s = ⟨false, false⟩ ∨ quotingOf s = ⟨true, false⟩ ∨
    quotingOf s = ⟨false, true⟩ ∧ Literal s ∧ '\'' ∉ s ∧ '\n' ∉ s ∨
      quotingOf s = ⟨true, true⟩ ∧ Literal s ∧ longestRun '\'' s ≤ 2 := by
  unfold quotingOf
  extract_lets escapes backslash newline quotes apostrophes
  split
  · exact .inl rfl
  split
  · rename_i hform
    simp only [Bool.and_eq_true, Bool.not_eq_true', beq_iff_eq] at hform
    obtain ⟨⟨hescapes, hapostrophes⟩, hnewline⟩ := hform
    refine .inr (.inr (.inl ⟨rfl, literal_of_any hescapes, not_mem_of_longestRun hapostrophes, fun hmem => ?_⟩))
    have hcontains : newline = true := List.contains_iff_mem.mpr hmem
    rw [hcontains] at hnewline
    cases hnewline
  split
  · exact .inr (.inl rfl)
  split
  · rename_i hform
    simp only [Bool.and_eq_true, Bool.not_eq_true', decide_eq_true_eq] at hform
    exact .inr (.inr (.inr ⟨rfl, literal_of_any hform.1, hform.2⟩))
  · cases newline with
    | false => exact .inl rfl
    | true => exact .inr (.inl rfl)

theorem dropBreak_of_head (hline : s.head? ≠ some '\n') (hreturn : s.head? ≠ some '\r') : dropBreak s = s := by
  cases s with
  | nil => rfl
  | cons c s =>
    have hc : c ≠ '\n' := by simpa using hline
    have hc' : c ≠ '\r' := by simpa using hreturn
    simp [dropBreak, readNewline, hc, hc']

/-- The break in front is there if the text has breaks, so that it is the one that does not count. -/
theorem dropBreak_lead {body : List Char} (hline : '\n' ∉ s → body.head? ≠ some '\n')
    (hreturn : body.head? ≠ some '\r') : dropBreak ((if s.contains '\n' then ['\n'] else []) ++ body) = body := by
  split
  · rfl
  · rename_i hnone
    exact dropBreak_of_head (hline fun hmem => hnone (List.contains_iff_mem.mpr hmem)) hreturn

theorem head_escapeText : (escapeText true quotes s ++ '"' :: rest).head? ≠ some '\r' ∧
    ('\n' ∉ s → (escapeText true quotes s ++ '"' :: rest).head? ≠ some '\n') := by
  cases s with
  | nil => exact ⟨by simp [escapeText], by simp [escapeText]⟩
  | cons c s =>
    by_cases hquote : c = '"'
    · subst hquote
      rw [escapeText_quote]
      split
      · exact ⟨by simp, by simp⟩
      · exact ⟨by simp, by simp⟩
    · rw [escapeText_other hquote]
      cases hcode : escapeOf true c with
      | some code =>
        obtain ⟨e, rfl, -⟩ := escapes_of_escapeOf hcode
        exact ⟨by simp, by simp⟩
      | none =>
        have hreturn := (plain_of_escapeOf hcode).carriage
        refine ⟨by simpa using hreturn, fun hline => ?_⟩
        simpa using Ne.symm (List.ne_and_not_mem_of_not_mem_cons hline).1

theorem head_literal (hliteral : Literal s) : (s ++ '\'' :: rest).head? ≠ some '\r' ∧
    ('\n' ∉ s → (s ++ '\'' :: rest).head? ≠ some '\n') := by
  cases s with
  | nil => exact ⟨by simp, by simp⟩
  | cons c s =>
    refine ⟨by simpa using ne_return_of_not_needsEscape (hliteral c List.mem_cons_self), fun hline => ?_⟩
    simpa using Ne.symm (List.ne_and_not_mem_of_not_mem_cons hline).1

theorem length_le_escapeText : s.length ≤ (escapeText long quotes s).length := by
  induction s generalizing quotes with
  | nil => exact Nat.le_refl 0
  | cons c s ih =>
    by_cases hquote : c = '"'
    · subst hquote
      rw [escapeText_quote]
      split
      · simpa using ih
      · simpa using Nat.le_succ_of_le ih
    · have hpos : 0 < ((escapeOf long c).getD [c]).length := by
        cases hcode : escapeOf long c with
        | some code =>
          obtain ⟨e, rfl, -⟩ := escapes_of_escapeOf hcode
          simp
        | none => simp
      have hrest := @ih 0
      rw [escapeText_other hquote, List.length_append, List.length_cons]
      omega

theorem readString_basic (h : ∀ more, rest ≠ '"' :: '"' :: more) :
    readString ('"' :: rest) = readBasic (rest.length + 1) rest := by
  rw [readString]
  exact fun more he => h more he

theorem readString_literal (h : ∀ more, rest ≠ '\'' :: '\'' :: more) : readString ('\'' :: rest) = readLiteral rest := by
  rw [readString]
  exact fun more he => h more he

/-- An empty text is followed by the quote that closes it, but not by another one. -/
theorem not_two_behind {quote : Char} {body : List Char} (hbody : ∀ c more, body = c :: more → c ≠ quote)
    (hrest : Unquoted quote rest) (more : List Char) : body ++ quote :: rest ≠ quote :: quote :: more := by
  intro he
  cases body with
  | nil =>
    rw [List.nil_append, List.cons.injEq] at he
    rw [he.2] at hrest
    exact unquoted_cons.mp hrest rfl
  | cons c body =>
    rw [List.cons_append, List.cons.injEq] at he
    exact hbody c body rfl he.1

theorem head_escapeText_line {more : List Char} (h : escapeText false quotes s = c :: more) : c ≠ '"' := by
  cases s with
  | nil => cases h
  | cons d s =>
    by_cases hquote : d = '"'
    · subst hquote
      rw [escapeText_quote, if_neg (by simp)] at h
      cases h
      decide
    · rw [escapeText_other hquote] at h
      cases hcode : escapeOf false d with
      | some code =>
        obtain ⟨e, rfl, -⟩ := escapes_of_escapeOf hcode
        rw [hcode] at h
        cases h
        decide
      | none =>
        rw [hcode] at h
        cases h
        exact hquote

theorem readString_writeString (text : String) (hquote : Unquoted '"' rest) (hapostrophe : Unquoted '\'' rest) :
    readString ((writeString text).toList ++ rest) = some (text.toList, rest) := by
  unfold writeString
  rcases quotingOf_cases text.toList with h | h | ⟨h, hliteral, hmem, hline⟩ | ⟨h, hliteral, hrun⟩
  · simp only [h, String.toList_ofList, Bool.false_and, Bool.false_eq_true, if_false, List.append_assoc,
      List.cons_append, List.nil_append]
    rw [readString_basic (not_two_behind (fun c more => head_escapeText_line) hquote), readBasic_escapeText]
    have hlength := @length_le_escapeText text.toList false 0
    rw [List.length_append]
    omega
  · simp only [h, String.toList_ofList, Bool.false_eq_true, if_false, if_true, Bool.true_and, List.append_assoc,
      List.cons_append, List.nil_append]
    rw [readString, dropBreak_lead head_escapeText.2 head_escapeText.1, readLongBasic_escapeText hquote]
    have hlength := @length_le_escapeText text.toList true 0
    rw [List.length_append]
    omega
  · simp only [h, String.toList_ofList, Bool.false_and, Bool.false_eq_true, if_false, if_true, List.append_assoc,
      List.cons_append, List.nil_append]
    rw [readString_literal (not_two_behind (fun c more he hc => hmem ?_) hapostrophe), readLiteral_text hliteral hmem hline]
    rw [he, hc]
    exact List.mem_cons_self
  · simp only [h, String.toList_ofList, if_true, Bool.true_and, List.append_assoc, List.cons_append, List.nil_append]
    rw [readString, dropBreak_lead (head_literal hliteral).2 (head_literal hliteral).1,
      readLongLiteral_text hapostrophe hliteral hrun]

end ContestTests.Toml
