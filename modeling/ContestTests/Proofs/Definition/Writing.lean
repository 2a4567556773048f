import ContestTests.Definition
import ContestTests.Proofs.Text.Lines
import ContestTests.Proofs.Text.Lowering
import ContestTests.Proofs.Text.Numerals

/-!
# Definitions are read as they are written

Whoever writes a definition is free in many ways: how lines end, in which order the directives come and in
which case their keywords, what is blank around values and which remarks stand between. None of it makes a
difference to what is read.
-/

namespace ContestTests.Definition

open Text

variable {s e value line key : List Char} {lines : List (List Char)} {names : List String} {groups : GroupSet}
  {directives start : Directives} {d : Definition} {n : Int}

-- ---------------------------------------------------------------------------
-- What can be written
-- ---------------------------------------------------------------------------

/-- One line with something on it and no blank at its end. -/
structure IsTemplate (s : List Char) : Prop where
  ne_nil : s ≠ []
  oneLine : '\n' ∉ s
  last : ∀ c ∈ s.getLast?, isBlank c = false

structure IsName (s : List Char) : Prop where
  ne_nil : s ≠ []
  oneLine : '\n' ∉ s
  noComma : ',' ∉ s
  trimmed : Trimmed s

/-- A pattern in braces would be read as names. -/
def Spellable : GroupSet → Prop
  | .tokens names => ∀ name ∈ names, IsName name.toList
  | .pattern text => Trimmed text.toList ∧ '\n' ∉ text.toList ∧ ¬∃ inner, text.toList = '\x7b' :: inner ++ ['\x7d']

structure WritableDirectives (directives : Directives) : Prop where
  autosum : ∀ n ∈ directives.autosum, -(bound63 : Int) ≤ n ∧ n < bound63
  groups : ∀ groups ∈ directives.groups, Spellable groups

structure Writable (d : Definition) : Prop where
  input : IsTemplate d.input.toList
  output : IsTemplate d.output.toList
  directives : WritableDirectives d.directives

-- ---------------------------------------------------------------------------
-- How it is written
-- ---------------------------------------------------------------------------

def Gap (s : List Char) : Prop := Blank s ∧ '\n' ∉ s

instance : Decidable (Gap s) := inferInstanceAs (Decidable (Blank s ∧ '\n' ∉ s))

def Padded (value s : List Char) : Prop := ∃ b e, Gap b ∧ Gap e ∧ s = b ++ value ++ e

/-- Names with commas between, and blanks wherever there is no name. -/
inductive Lists : List String → List Char → Prop
  | nil {b : List Char} (hb : Gap b) : Lists [] b
  | single {name : String} {s : List Char} (h : Padded name.toList s) : Lists [name] s
  | cons {name next : String} {names : List String} {s rest : List Char} (h : Padded name.toList s)
      (hrest : Lists (next :: names) rest) : Lists (name :: next :: names) (s ++ ',' :: rest)

inductive Spells : GroupSet → List Char → Prop
  | tokens {names : List String} {inner : List Char} (h : Lists names inner) :
      Spells (.tokens names) ('\x7b' :: inner ++ ['\x7d'])
  | pattern {text : String} : Spells (.pattern text) text.toList

def keywords : List (List Char) := ["AUTOSUM".toList, "SET".toList]

/-- A keyword in any case and a value behind a gap. -/
def Directive (keyword value line : List Char) : Prop :=
  ∃ b key gap e, Gap b ∧ sameIgnoringAsciiCase key keyword ∧ Gap gap ∧ gap ≠ [] ∧ Gap e ∧
    line = b ++ key ++ gap ++ value ++ e

def Remark (line : List Char) : Prop :=
  '\n' ∉ line ∧ ∀ keyword ∈ keywords, sameIgnoringAsciiCase (firstWord line) keyword = false

instance : Decidable (Remark line) :=
  inferInstanceAs (Decidable ('\n' ∉ line ∧ ∀ k ∈ keywords, sameIgnoringAsciiCase (firstWord line) k = false))

/-- Each directive once, and remarks between them. -/
inductive Body : Directives → List (List Char) → Prop
  | nil : Body .none []
  | remark {directives : Directives} {line : List Char} {lines : List (List Char)} (h : Remark line)
      (hrest : Body directives lines) : Body directives (line :: lines)
  | autosum {groups : Option GroupSet} {n : Int} {value line : List Char} {lines : List (List Char)}
      (hvalue : IsSigned n value) (h : Directive "AUTOSUM".toList value line) (hrest : Body ⟨none, groups⟩ lines) :
      Body ⟨some n, groups⟩ (line :: lines)
  | groups {autosum : Option Int} {groups : GroupSet} {value line : List Char} {lines : List (List Char)}
      (hvalue : Spells groups value) (h : Directive "SET".toList value line) (hrest : Body ⟨autosum, none⟩ lines) :
      Body ⟨autosum, some groups⟩ (line :: lines)

/-- The text is the definition, laid out in lines. -/
def Written (d : Definition) (text : List Char) : Prop :=
  ∃ body, Body d.directives body ∧ LaidOut (d.input.toList :: d.output.toList :: body) text

-- ---------------------------------------------------------------------------
-- Blanks and keywords
-- ---------------------------------------------------------------------------

theorem gap_nil : Gap [] := ⟨blank_nil, List.not_mem_nil⟩

theorem gap_space : Gap [' '] := ⟨List.forall_mem_singleton.mpr rfl, by decide⟩

theorem blank_ascii : ∀ n < 0x80, isBlank (Char.ofNat n) → isBlank (Char.ofNat n).toLower := by decide

theorem isBlank_toLower {c : Char} (h : isBlank c) : isBlank c.toLower := by
  by_cases hc : c.toNat < 0x80
  · rw [← Char.ofNat_toNat c] at h ⊢
    exact blank_ascii _ hc h
  · rwa [toLower_of_not_ascii hc]

theorem keyword_notBlank {keyword : List Char} (hkeyword : keyword ∈ keywords)
    (h : sameIgnoringAsciiCase key keyword) : key ≠ [] ∧ ∀ c ∈ key, isBlank c = false := by
  have hlower : key.map Char.toLower = keyword.map Char.toLower := beq_iff_eq.mp h
  have hkeywords : ∀ k ∈ keywords, k ≠ [] ∧ (k.map Char.toLower).all (!isBlank ·) := by decide
  obtain ⟨hne, hall⟩ := hkeywords keyword hkeyword
  constructor
  · rintro rfl
    exact hne (List.map_eq_nil_iff.mp hlower.symm)
  · intro c hc
    have hmem : c.toLower ∈ keyword.map Char.toLower := hlower ▸ List.mem_map_of_mem hc
    have hnot := List.all_eq_true.mp hall _ hmem
    exact Bool.eq_false_iff.mpr fun hblank => by simp [isBlank_toLower hblank] at hnot

theorem trimmed_of_notBlank (h : ∀ c ∈ s, isBlank c = false) : Trimmed s :=
  ⟨fun c hc => h c (List.mem_of_mem_head? hc), fun c hc => h c (List.mem_of_mem_getLast? hc)⟩

theorem lineFeed_notMem_of_notBlank (h : ∀ c ∈ s, isBlank c = false) : '\n' ∉ s := fun hmem =>
  absurd (h _ hmem) (by decide)

theorem keyAndValue_directive {keyword : List Char} (hkeyword : keyword ∈ keywords) (hvalue : Trimmed value)
    (h : Directive keyword value line) :
    ∃ key, sameIgnoringAsciiCase key keyword ∧ keyAndValue (trim line) = (key, value) := by
  obtain ⟨b, key, gap, e, hb, hkey, hgap, hne, he, rfl⟩ := h
  obtain ⟨hkeyne, hnotBlank⟩ := keyword_notBlank hkeyword hkey
  refine ⟨key, hkey, ?_⟩
  by_cases hempty : value = []
  · have hblank : Blank (gap ++ e) := List.forall_mem_append.mpr ⟨hgap.1, he.1⟩
    rw [hempty, List.append_nil, List.append_assoc _ gap, trim_padded hb.1 (trimmed_of_notBlank hnotBlank) hblank,
      keyAndValue, splitAtBlank_of_notBlank hnotBlank]
  · obtain ⟨g, gap, rfl⟩ := List.exists_cons_of_ne_nil hne
    obtain ⟨hg, hgapBlank⟩ := List.forall_mem_cons.mp hgap.1
    have htrimmed : Trimmed (key ++ g :: (gap ++ value)) :=
      (trimmed_of_notBlank hnotBlank).around hkeyne hvalue hempty (g :: gap)
    have hline : b ++ key ++ g :: gap ++ value ++ e = b ++ (key ++ g :: (gap ++ value)) ++ e := by simp
    rw [hline, trim_padded hb.1 htrimmed he.1, keyAndValue, splitAtBlank_append hnotBlank hg]
    dsimp only
    rw [trim_blank_append hgapBlank, hvalue.trim_eq]

theorem fst_keyAndValue (line : List Char) : (keyAndValue (trim line)).1 = firstWord line := by
  rw [← takeWhile_trim, keyAndValue]
  cases hsplit : splitAtBlank (trim line) with
  | none => exact (takeWhile_of_splitAtBlank hsplit).symm
  | some split => exact (splitAtBlank_fst hsplit).symm

-- ---------------------------------------------------------------------------
-- Groups
-- ---------------------------------------------------------------------------

theorem comma_notMem_of_blank (h : Blank s) : ',' ∉ s := fun hmem => absurd (h _ hmem) (by decide)

theorem trim_of_padded (hs : Trimmed value) (h : Padded value s) : trim s = value := by
  obtain ⟨b, e, hb, he, rfl⟩ := h
  exact trim_padded hb.1 hs he.1

theorem comma_notMem_of_padded (hs : ',' ∉ value) (h : Padded value s) : ',' ∉ s := by
  obtain ⟨b, e, hb, he, rfl⟩ := h
  simp [comma_notMem_of_blank hb.1, comma_notMem_of_blank he.1, hs]

def namesOf (inner : List Char) : List String :=
  ((splitOn ',' inner).map trim).filter (!·.isEmpty) |>.map String.ofList

theorem namesOf_append (s rest : List Char) :
    namesOf (s ++ ',' :: rest) = namesOf s ++ namesOf rest := by
  rw [namesOf, splitOn_append, namesOf, namesOf, List.map_append, List.filter_append, List.map_append]

theorem namesOf_padded {name : String} (hname : IsName name.toList) (h : Padded name.toList s) : namesOf s = [name] := by
  have hkept : (!name.toList.isEmpty) = true := by simpa using hname.ne_nil
  rw [namesOf, splitOn_of_not_mem (comma_notMem_of_padded hname.noComma h), List.map_singleton,
    trim_of_padded hname.trimmed h, List.filter_singleton, hkept, cond_true, List.map_singleton, String.ofList_toList]

theorem namesOf_lists (hnames : ∀ name ∈ names, IsName name.toList) (h : Lists names s) : namesOf s = names := by
  induction h with
  | nil hb =>
    have htrim := trim_padded hb.1 trimmed_nil blank_nil
    rw [List.append_nil, List.append_nil] at htrim
    rw [namesOf, splitOn_of_not_mem (comma_notMem_of_blank hb.1), List.map_singleton, htrim]
    rfl
  | single h => exact namesOf_padded (hnames _ List.mem_cons_self) h
  | cons h _ ih =>
    obtain ⟨hname, hrest⟩ := List.forall_mem_cons.mp hnames
    rw [namesOf_append, namesOf_padded hname h, ih hrest]
    rfl

theorem groupSet_spells (hspellable : Spellable groups) (h : Spells groups value) : groupSet value = groups := by
  cases h with
  | @tokens names inner h =>
    have hlast : (inner ++ ['\x7d']).getLast? = some '\x7d' := List.getLast?_concat
    rw [List.cons_append, groupSet, if_pos hlast, List.dropLast_concat, ← namesOf, namesOf_lists hspellable h]
  | @pattern text =>
    obtain ⟨-, -, hbraces⟩ := hspellable
    unfold groupSet
    split
    · rename_i inner htext
      rw [if_neg, htext, ← htext, String.ofList_toList]
      intro hlast
      exact hbraces ⟨inner.dropLast, by rw [htext, List.cons_append, List.dropLast_append_getLast? _ hlast]⟩
    · rw [String.ofList_toList]

-- ---------------------------------------------------------------------------
-- Lines
-- ---------------------------------------------------------------------------

theorem addLine_found {found : List Char} (h : Finds line found) (directives : Directives) :
    addLine directives found = addLine directives line := by
  obtain ⟨e, he, rfl⟩ := h
  rw [addLine, addLine, trim_append_blank he]

theorem addLine_remark (h : Remark line) (directives : Directives) : addLine directives line = .ok directives := by
  obtain ⟨-, hkeywords⟩ := h
  have hautosum := hkeywords _ List.mem_cons_self
  have hset := hkeywords _ (List.mem_cons_of_mem _ List.mem_cons_self)
  rw [← fst_keyAndValue] at hautosum hset
  rw [addLine]
  simp only [hautosum, hset, Bool.false_eq_true, if_false]

theorem addLine_autosum (hlow : -(bound63 : Int) ≤ n) (hhigh : n < bound63) (hvalue : IsSigned n value)
    (h : Directive "AUTOSUM".toList value line) (directives : Directives) :
    addLine directives line = .ok { directives with autosum := some n } := by
  have htrimmed := trimmed_of_notBlank fun c hc => hvalue.isBlank_eq_false hc
  obtain ⟨key, hkey, hsplit⟩ := keyAndValue_directive List.mem_cons_self htrimmed h
  rw [addLine, hsplit]
  simp only [hkey, if_true, readSigned?_of_isSigned hvalue hlow hhigh]

theorem Spells.trimmed (hspellable : Spellable groups) (h : Spells groups value) : Trimmed value := by
  cases h with
  | tokens h =>
    refine ⟨fun c hc => ?_, fun c hc => ?_⟩
    · cases hc
      rfl
    · rw [List.getLast?_concat] at hc
      cases hc
      rfl
  | pattern => exact hspellable.1

theorem addLine_groups (hspellable : Spellable groups) (hvalue : Spells groups value)
    (h : Directive "SET".toList value line) (directives : Directives) :
    addLine directives line = .ok { directives with groups := some groups } := by
  obtain ⟨key, hkey, hsplit⟩ :=
    keyAndValue_directive (List.mem_cons_of_mem _ List.mem_cons_self) (hvalue.trimmed hspellable) h
  have hautosum : sameIgnoringAsciiCase key "AUTOSUM".toList = false := by
    rw [sameIgnoringAsciiCase, beq_iff_eq.mp hkey]
    decide
  rw [addLine, hsplit]
  simp only [hautosum, hkey, Bool.false_eq_true, if_false, if_true, groupSet_spells hspellable hvalue]

theorem foldlM_body (h : Body directives lines) (hwritable : WritableDirectives directives) (start : Directives) :
    lines.foldlM addLine start =
      .ok ⟨directives.autosum.or start.autosum, directives.groups.or start.groups⟩ := by
  induction h generalizing start with
  | nil => rfl
  | remark h _ ih =>
    rw [List.foldlM_cons, addLine_remark h]
    exact ih hwritable start
  | @autosum groups n value line lines hvalue h _ ih =>
    obtain ⟨hlow, hhigh⟩ := hwritable.autosum n rfl
    rw [List.foldlM_cons, addLine_autosum hlow hhigh hvalue h]
    exact ih ⟨by simp, hwritable.groups⟩ _
  | @groups autosum groups value line lines hvalue h _ ih =>
    rw [List.foldlM_cons, addLine_groups (hwritable.groups groups rfl) hvalue h]
    exact ih ⟨hwritable.autosum, by simp⟩ _

theorem foldlM_body_none (h : Body directives lines) (hwritable : WritableDirectives directives) :
    lines.foldlM addLine .none = .ok directives := by
  rw [foldlM_body h hwritable, Directives.none, Option.or_none, Option.or_none]

theorem foldlM_found {found : List (List Char)} (h : List.Forall₂ Finds lines found) (start : Directives) :
    found.foldlM addLine start = lines.foldlM addLine start := by
  induction h generalizing start with
  | nil => rfl
  | cons hline _ ih =>
    rw [List.foldlM_cons, List.foldlM_cons, addLine_found hline]
    exact bind_congr fun _ => ih _

-- ---------------------------------------------------------------------------
-- Line feeds
-- ---------------------------------------------------------------------------

theorem lineFeed_notMem_padded (hs : '\n' ∉ value) (h : Padded value s) : '\n' ∉ s := by
  obtain ⟨b, e, hb, he, rfl⟩ := h
  simp [hb.2, he.2, hs]

theorem lineFeed_notMem_lists (hnames : ∀ name ∈ names, IsName name.toList) (h : Lists names s) : '\n' ∉ s := by
  induction h with
  | nil hb => exact hb.2
  | single h => exact lineFeed_notMem_padded (hnames _ List.mem_cons_self).oneLine h
  | cons h _ ih =>
    obtain ⟨hname, hrest⟩ := List.forall_mem_cons.mp hnames
    simp [lineFeed_notMem_padded hname.oneLine h, ih hrest]

theorem Spells.oneLine (hspellable : Spellable groups) (h : Spells groups value) : '\n' ∉ value := by
  cases h with
  | tokens h => simp [lineFeed_notMem_lists hspellable h]
  | pattern => exact hspellable.2.1

theorem lineFeed_notMem_directive {keyword : List Char} (hkeyword : keyword ∈ keywords) (hvalue : '\n' ∉ value)
    (h : Directive keyword value line) : '\n' ∉ line := by
  obtain ⟨b, key, gap, e, hb, hkey, hgap, -, he, rfl⟩ := h
  have hkey := lineFeed_notMem_of_notBlank (keyword_notBlank hkeyword hkey).2
  simp [hb.2, hkey, hgap.2, hvalue, he.2]

theorem lineFeed_notMem_body (h : Body directives lines) (hwritable : WritableDirectives directives) :
    ∀ line ∈ lines, '\n' ∉ line := by
  induction h with
  | nil => exact fun line hline => absurd hline List.not_mem_nil
  | remark h _ ih => exact List.forall_mem_cons.mpr ⟨h.1, ih hwritable⟩
  | autosum hvalue h _ ih =>
    have hline := lineFeed_notMem_of_notBlank fun c hc => hvalue.isBlank_eq_false hc
    exact List.forall_mem_cons.mpr
      ⟨lineFeed_notMem_directive List.mem_cons_self hline h, ih ⟨by simp, hwritable.groups⟩⟩
  | groups hvalue h _ ih =>
    have hline := hvalue.oneLine (hwritable.groups _ rfl)
    exact List.forall_mem_cons.mpr ⟨lineFeed_notMem_directive (List.mem_cons_of_mem _ List.mem_cons_self) hline h,
      ih ⟨hwritable.autosum, by simp⟩⟩

-- ---------------------------------------------------------------------------
-- Definitions
-- ---------------------------------------------------------------------------

theorem template?_found {text : String} {found : List Char} (h : IsTemplate text.toList) (hfound : Finds text.toList found) :
    template? (some found) = some text := by
  obtain ⟨e, he, htext⟩ := hfound
  have hend : trimEnd found = text.toList := by
    rw [← trimEnd_append_blank he, ← htext, trimEnd_of_last h.last]
  rw [template?, hend, if_neg (by simpa using h.ne_nil), String.ofList_toList]

theorem exists_padded (s : List Char) : Padded s s := ⟨[], [], gap_nil, gap_nil, (List.append_nil s).symm⟩

theorem exists_lists (names : List String) : ∃ s, Lists names s := by
  induction names with
  | nil => exact ⟨[], .nil gap_nil⟩
  | cons name names ih =>
    cases names with
    | nil => exact ⟨_, .single (exists_padded _)⟩
    | cons next names =>
      obtain ⟨s, hs⟩ := ih
      exact ⟨_, .cons (exists_padded _) hs⟩

theorem exists_spells (groups : GroupSet) : ∃ s, Spells groups s := by
  cases groups with
  | tokens names =>
    obtain ⟨s, hs⟩ := exists_lists names
    exact ⟨_, .tokens hs⟩
  | pattern text => exact ⟨_, .pattern⟩

theorem exists_directive (keyword value : List Char) : ∃ line, Directive keyword value line :=
  ⟨_, [], keyword, [' '], [], gap_nil, by simp [sameIgnoringAsciiCase], gap_space, List.cons_ne_nil _ _, gap_nil, rfl⟩

theorem exists_body (directives : Directives) : ∃ lines, Body directives lines := by
  have hgroups (groups : Option GroupSet) : ∃ lines, Body ⟨none, groups⟩ lines := by
    cases groups with
    | none => exact ⟨[], .nil⟩
    | some groups =>
      obtain ⟨value, hvalue⟩ := exists_spells groups
      obtain ⟨line, hline⟩ := exists_directive "SET".toList value
      exact ⟨[line], .groups hvalue hline .nil⟩
  obtain ⟨autosum, groups⟩ := directives
  obtain ⟨lines, hlines⟩ := hgroups groups
  cases autosum with
  | none => exact ⟨lines, hlines⟩
  | some n =>
    obtain ⟨value, hvalue⟩ := exists_isSigned n
    obtain ⟨line, hline⟩ := exists_directive "AUTOSUM".toList value
    exact ⟨line :: lines, .autosum hvalue hline hlines⟩

theorem exists_written (d : Definition) : ∃ text, Written d text := by
  obtain ⟨body, hbody⟩ := exists_body d.directives
  obtain ⟨text, htext⟩ := exists_laidOut (d.input.toList :: d.output.toList :: body)
  exact ⟨text, body, hbody, htext⟩

/-- Every definition within the limits can be written, and is read from every text that it is written as. -/
theorem ofText_written (d : Definition) (hd : Writable d) :
    (∃ text, Written d text) ∧ ∀ text : String, Written d text.toList → ofText d.name text = .ok d := by
  refine ⟨exists_written d, fun text ⟨body, hbody, htext⟩ => ?_⟩
  have honeLine : ∀ line ∈ d.input.toList :: d.output.toList :: body, '\n' ∉ line :=
    List.forall_mem_cons.mpr ⟨hd.input.oneLine, List.forall_mem_cons.mpr
      ⟨hd.output.oneLine, lineFeed_notMem_body hbody hd.directives⟩⟩
  have hfinds := finds_lines htext honeLine
  rw [ofText]
  generalize Text.lines text.toList = found at hfinds
  obtain _ | ⟨hinput, _ | ⟨houtput, hrest⟩⟩ := hfinds
  have hdirectives := (foldlM_found hrest .none).trans (foldlM_body_none hbody hd.directives)
  simp only [List.head?_cons, List.tail_cons, template?_found hd.input hinput, template?_found hd.output houtput,
    hdirectives]

theorem ofText_written_freely :
    let d : Definition :=
      ⟨"X", " $\x7bS\x7d.in", "$\x7bS\x7d.out", ⟨some (-9223372036854775808), some (.tokens ["a", "\x7d"])⟩⟩
    let text :=
      " $\x7bS\x7d.in\r\n$\x7bS\x7d.out\n\nsEt\t\x7ba\u2003, \x7d \x7d\r\n# SET b\n\r autoSUM -09223372036854775808"
    Writable d ∧ Written d text.toList ∧ ofText d.name text = .ok d := by
  intro d text
  have hwritable : Writable d := by
    refine ⟨⟨by decide, by decide, last_of_trimEnd (by decide)⟩,
      ⟨by decide, by decide, last_of_trimEnd (by decide)⟩, ?_, ?_⟩
    · rintro n ⟨⟩
      decide
    · rintro groups ⟨⟩
      exact List.forall_mem_cons.mpr ⟨⟨by decide, by decide, by decide, by decide⟩,
        List.forall_mem_singleton.mpr ⟨by decide, by decide, by decide, by decide⟩⟩
  have hlists : Lists ["a", "\x7d"] "a\u2003, \x7d ".toList :=
    .cons (s := ['a', '\u2003']) ⟨[], ['\u2003'], gap_nil, by decide, by decide⟩
      (.single ⟨[' '], [' '], gap_space, gap_space, by decide⟩)
  have hset : Directive "SET".toList "\x7ba\u2003, \x7d \x7d".toList "sEt\t\x7ba\u2003, \x7d \x7d".toList :=
    ⟨[], "sEt".toList, ['\t'], [], gap_nil, by decide, by decide, by decide, gap_nil, by decide⟩
  have hsigned : IsSigned (-9223372036854775808) "-09223372036854775808".toList :=
    .inr ⟨by decide, "09223372036854775808".toList, by decide, by decide, List.all_eq_true.mp (by decide), by decide⟩
  have hautosum : Directive "AUTOSUM".toList "-09223372036854775808".toList "\r autoSUM -09223372036854775808".toList :=
    ⟨['\r', ' '], "autoSUM".toList, [' '], [], by decide, by decide, gap_space, by decide, gap_nil, by decide⟩
  have hbody : Body d.directives
      [[], "sEt\t\x7ba\u2003, \x7d \x7d".toList, "# SET b".toList, "\r autoSUM -09223372036854775808".toList] :=
    .remark (by decide) (.groups (.tokens hlists) hset (.remark (by decide) (.autosum hsigned hautosum .nil)))
  have htext : text.toList = d.input.toList ++ ['\r', '\n'] ++ (d.output.toList ++ ['\n'] ++ ([] ++ ['\n'] ++
      ("sEt\t\x7ba\u2003, \x7d \x7d".toList ++ ['\r', '\n'] ++ ("# SET b".toList ++ ['\n'] ++
        "\r autoSUM -09223372036854775808".toList)))) := by decide
  have hwritten : Written d text.toList := by
    refine ⟨_, hbody, htext ▸ ?_⟩
    exact .ended .returned (.ended .alone (.ended .alone (.ended .returned (.ended .alone (.unended (by decide))))))
  exact ⟨hwritable, hwritten, (ofText_written d hwritable).2 text hwritten⟩

end ContestTests.Definition
