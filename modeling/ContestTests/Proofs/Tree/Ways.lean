import ContestTests.Proofs.Success
import ContestTests.Proofs.Text.Lines
import ContestTests.Task

/-!
# Paths as ways

The text of a path means the names between its slashes. Joining appends them, and a way written with
slashes is read back. `Tree.keyOf` follows a path by its text alone; where the path can be followed in
the tree, that is where it leads.
-/

namespace ContestTests

open ContestTests.Text

namespace Path

variable {base path : String} {way : Key} {name : String}

def piecesOf (s : List Char) : List (List Char) := (splitOn '/' s).filter fun piece => !piece.isEmpty

theorem piecesOf_append (s t : List Char) : piecesOf (s ++ '/' :: t) = piecesOf s ++ piecesOf t := by
  rw [piecesOf, splitOn_append, List.filter_append]
  rfl

theorem piecesOf_append_of_slash {s : List Char} (h : s.getLast? = some '/') (t : List Char) :
    piecesOf (s ++ t) = piecesOf s ++ piecesOf t := by
  obtain ⟨s, rfl⟩ := List.getLast?_eq_some_iff.mp h
  have hend : piecesOf (s ++ ['/']) = piecesOf s := by
    rw [piecesOf_append]
    exact List.append_nil _
  rw [hend, List.append_assoc, List.singleton_append, piecesOf_append]

theorem toList_join (base : String) (h : isAbsolute path = false) :
    ∃ slash, (slash = [] ∨ slash = ['/']) ∧ (join base path).toList = base.toList ++ slash ++ path.toList := by
  rw [join, h, if_neg (by simp)]
  split
  · exact ⟨[], .inl rfl, by rw [String.toList_append, List.append_nil]⟩
  · exact ⟨['/'], .inr rfl, by rw [String.toList_append, String.toList_append]; rfl⟩

theorem pieces_join (h : isAbsolute path = false) : pieces (join base path) = pieces base ++ pieces path := by
  unfold join
  rw [h, if_neg (by simp)]
  split
  · rename_i hbase
    rcases Bool.or_eq_true_iff.mp hbase with hempty | hslash
    · obtain rfl : base = "" := by simpa using hempty
      rfl
    · show piecesOf (base ++ path).toList = _
      rw [String.toList_append]
      exact piecesOf_append_of_slash (by simpa using hslash) _
  · show piecesOf (base ++ "/" ++ path).toList = _
    rw [String.toList_append, String.toList_append, List.append_assoc]
    exact piecesOf_append _ _

theorem isAbsolute_join (h : isAbsolute path = false) : isAbsolute (join base path) = isAbsolute base := by
  unfold join
  rw [h, if_neg (by simp)]
  by_cases hempty : base = ""
  · subst hempty
    exact h
  · have hhead (t : String) : isAbsolute (base ++ t) = isAbsolute base := by
      have hne : base.toList ≠ [] := fun he => hempty (String.toList_eq_nil_iff.mp he)
      obtain ⟨c, s, hs⟩ := List.exists_cons_of_ne_nil hne
      simp [isAbsolute, String.toList_append, hs]
    split
    · exact hhead path
    · rw [String.append_assoc]
      exact hhead _

structure IsName (name : String) : Prop where
  nonempty : name ≠ ""
  noSlash : '/' ∉ name.toList
  notHere : name ≠ "."
  notUp : name ≠ ".."

instance (name : String) : Decidable (IsName name) :=
  decidable_of_iff (name ≠ "" ∧ '/' ∉ name.toList ∧ name ≠ "." ∧ name ≠ "..")
    ⟨fun ⟨hne, hslash, hhere, hup⟩ => ⟨hne, hslash, hhere, hup⟩, fun h => ⟨h.nonempty, h.noSlash, h.notHere, h.notUp⟩⟩

theorem IsName.ofPiece (h : IsName name) : Component.ofPiece name.toList = .entry name := by
  have hhere : name.toList ≠ ['.'] := fun he => h.notHere (String.toList_inj.mp he)
  have hup : name.toList ≠ ['.', '.'] := fun he => h.notUp (String.toList_inj.mp he)
  rw [Component.ofPiece, if_neg hhere, if_neg hup, String.ofList_toList]

theorem mem_pieces {piece : List Char} (h : piece ∈ pieces path) :
    piece ≠ [] ∧ '/' ∉ piece ∧ ∀ c ∈ piece, c ∈ path.toList := by
  obtain ⟨hsplit, hne⟩ := List.mem_filter.mp h
  obtain ⟨hslash, hchars⟩ := mem_splitOn hsplit
  exact ⟨by simpa using hne, hslash, hchars⟩

theorem ofPiece_eq_entry {piece : List Char} (h : piece ∈ pieces path)
    (he : Component.ofPiece piece = .entry name) :
    IsName name ∧ name.toList = piece := by
  obtain ⟨hne, hslash, -⟩ := mem_pieces h
  unfold Component.ofPiece at he
  split at he
  · cases he
  rename_i hhere
  split at he
  · cases he
  rename_i hup
  cases he
  refine ⟨⟨?_, ?_, ?_, ?_⟩, String.toList_ofList⟩
  · simpa [← String.toList_inj] using hne
  · rwa [String.toList_ofList]
  · simpa [← String.toList_inj] using hhere
  · simpa [← String.toList_inj] using hup

def IsWay (way : Key) : Prop := ∀ name ∈ way, IsName name

theorem IsName.isWay (h : IsName name) : IsWay [name] := by simpa [IsWay] using h

theorem IsWay.concat (h : IsWay way) (hname : IsName name) : IsWay (way ++ [name]) := fun n hn =>
  (List.mem_append.mp hn).elim (h n) fun hn => List.mem_singleton.mp hn ▸ hname

theorem wayText_nil : Task.wayText [] = "" := rfl

theorem wayText_singleton (name : String) : Task.wayText [name] = name := by
  simp [Task.wayText, joinTexts, joinWith]

theorem pieces_joinTexts {texts : List String} (h : ∀ s ∈ texts, s ≠ "" ∧ '/' ∉ s.toList) :
    pieces (joinTexts "/" texts) = texts.map String.toList := by
  by_cases hnil : texts = []
  · rw [hnil]
    rfl
  have hsplit : splitOn '/' (joinTexts "/" texts).toList = texts.map String.toList := by
    rw [joinTexts, String.toList_ofList]
    refine splitOn_joinWith (by simpa using hnil) fun s hs => ?_
    obtain ⟨n, hn, rfl⟩ := List.mem_map.mp hs
    exact (h n hn).2
  rw [pieces, hsplit, List.filter_eq_self]
  intro s hs
  obtain ⟨n, hn, rfl⟩ := List.mem_map.mp hs
  simpa using (h n hn).1

theorem isAbsolute_joinTexts {texts : List String} (h : ∀ s ∈ texts, s ≠ "" ∧ '/' ∉ s.toList) :
    isAbsolute (joinTexts "/" texts) = false := by
  cases texts with
  | nil => rfl
  | cons text more =>
    obtain ⟨⟨hempty, hslash⟩, -⟩ := List.forall_mem_cons.mp h
    have hne : text.toList ≠ [] := fun he => hempty (String.toList_eq_nil_iff.mp he)
    obtain ⟨c, s, hs⟩ := List.exists_cons_of_ne_nil hne
    have hc : c ≠ '/' := by
      rintro rfl
      exact hslash (by simp [hs])
    cases more <;> simp [isAbsolute, joinTexts, joinWith, hs, hc]

theorem pieces_slash (path : String) : pieces ("/" ++ path) = pieces path := by
  show piecesOf ("/" ++ path).toList = _
  rw [String.toList_append]
  exact piecesOf_append [] _

theorem isAbsolute_slash (path : String) : isAbsolute ("/" ++ path) = true := by
  simp [isAbsolute, String.toList_append]

theorem pieces_wayText (h : IsWay way) : pieces (Task.wayText way) = way.map String.toList :=
  pieces_joinTexts fun name hname => ⟨(h name hname).nonempty, (h name hname).noSlash⟩

theorem isAbsolute_wayText (h : IsWay way) : isAbsolute (Task.wayText way) = false :=
  isAbsolute_joinTexts fun name hname => ⟨(h name hname).nonempty, (h name hname).noSlash⟩

theorem IsName.isAbsolute (h : IsName name) : isAbsolute name = false := by
  rw [← wayText_singleton name]
  exact isAbsolute_wayText h.isWay

theorem wayText_injective {way' : Key} (h : IsWay way) (h' : IsWay way')
    (he : Task.wayText way = Task.wayText way') : way = way' := by
  have hmap := (pieces_wayText h).symm.trans ((congrArg pieces he).trans (pieces_wayText h'))
  exact (List.map_inj_right fun a b => String.toList_inj.mp).mp hmap

theorem piecesOf_append_slashes (s : List Char) {slashes : List Char} (h : ∀ c ∈ slashes, c = '/') :
    piecesOf (s ++ slashes) = piecesOf s := by
  induction slashes generalizing s with
  | nil => rw [List.append_nil]
  | cons c slashes ih =>
    obtain ⟨rfl, hrest⟩ := List.forall_mem_cons.mp h
    have hnone : piecesOf slashes = [] := ih [] hrest
    rw [piecesOf_append, hnone, List.append_nil]

theorem dropSlash_cases (path : String) : Tree.dropSlash path = path ∨
    ∃ slashes : List Char, (∀ c ∈ slashes, c = '/') ∧ path.toList = (Tree.dropSlash path).toList ++ slashes ∧
      (Tree.dropSlash path).toList ≠ [] := by
  unfold Tree.dropSlash
  dsimp only
  split
  · exact .inl rfl
  · rename_i hne
    refine .inr ⟨(path.toList.reverse.takeWhile (· == '/')).reverse, fun c hc => ?_, ?_, ?_⟩
    · have hall := List.all_eq_true.mp (List.all_takeWhile (l := path.toList.reverse)) c (List.mem_reverse.mp hc)
      simpa using hall
    · rw [String.toList_ofList, ← List.reverse_append, List.takeWhile_append_dropWhile, List.reverse_reverse]
    · simpa using hne

-- ---------------------------------------------------------------------------
-- Components
-- ---------------------------------------------------------------------------

def Proper (c : Component) : Prop := c ≠ .root ∧ ∀ name, c = .entry name → IsName name

theorem Proper.text {c : Component} (h : Proper c) :
    (c.text ≠ "" ∧ '/' ∉ c.text.toList) ∧ Component.ofPiece c.text.toList = c := by
  cases c with
  | root => exact absurd rfl h.1
  | here => exact ⟨⟨by decide, by decide⟩, rfl⟩
  | up => exact ⟨⟨by decide, by decide⟩, rfl⟩
  | entry name =>
    have hname := h.2 name rfl
    exact ⟨⟨hname.nonempty, hname.noSlash⟩, hname.ofPiece⟩

theorem proper_ofPiece {piece : List Char} (h : piece ∈ pieces path) : Proper (Component.ofPiece piece) := by
  refine ⟨?_, fun name he => (ofPiece_eq_entry h he).1⟩
  unfold Component.ofPiece
  split
  · simp
  · split <;> simp

def rooted (root : Bool) (cs : List Component) : List Component := if root then .root :: cs else cs

theorem rooted_append (root : Bool) (cs more : List Component) :
    rooted root (cs ++ more) = rooted root cs ++ more := by
  cases root <;> rfl

/-- The components are the pieces without some of the dots. -/
theorem components_eq (path : String) : ∃ cs, components path = rooted (isAbsolute path) cs ∧
    cs.Sublist ((pieces path).map Component.ofPiece) ∧
      cs.filter (· != .here) = ((pieces path).map Component.ofPiece).filter (· != .here) := by
  unfold components
  dsimp only
  generalize (pieces path).map Component.ofPiece = parts
  unfold rooted
  split
  · exact ⟨_, rfl, List.filter_sublist, by simp [List.filter_filter]⟩
  · split
    · rename_i rest
      exact ⟨_, rfl, List.filter_sublist.cons_cons _, by simp [List.filter_filter]⟩
    · exact ⟨_, rfl, List.filter_sublist, by simp [List.filter_filter]⟩

theorem proper_of_sublist {cs : List Component} (h : cs.Sublist ((pieces path).map Component.ofPiece)) :
    ∀ c ∈ cs, Proper c := by
  intro c hc
  obtain ⟨piece, hpiece, rfl⟩ := List.mem_map.mp (h.mem hc)
  exact proper_ofPiece hpiece

theorem mem_components_iff {c : Component} (hroot : c ≠ .root) (hhere : c ≠ .here) :
    c ∈ components path ↔ c ∈ (pieces path).map Component.ofPiece := by
  obtain ⟨cs, hcs, -, hfilter⟩ := components_eq path
  have hmem : c ∈ cs ↔ c ∈ (pieces path).map Component.ofPiece := by
    have hiff := congrArg (c ∈ ·) hfilter
    simpa [hhere] using hiff
  rw [hcs, ← hmem, rooted]
  split <;> simp [hroot]

theorem up_not_mem_join (h : isAbsolute path = false) (hbase : .up ∉ components base)
    (hpath : .up ∉ components path) : .up ∉ components (join base path) := by
  rw [mem_components_iff (by simp) (by simp)] at hbase hpath ⊢
  rw [pieces_join h, List.map_append, List.mem_append]
  exact not_or.mpr ⟨hbase, hpath⟩

def IsNumbered (name : String) : Prop :=
  ∃ digits : List Char, digits ≠ [] ∧ (∀ c ∈ digits, c.isDigit) ∧
    (name.toList = digits ++ ".in".toList ∨ name.toList = digits ++ ".out".toList)

theorem not_isNumbered {c : Char} {s : List Char} (hname : name.toList = c :: s) (hc : c.isDigit = false) :
    ¬IsNumbered name := by
  rintro ⟨digits, hne, hdigits, htext⟩
  obtain ⟨d, more, rfl⟩ := List.exists_cons_of_ne_nil hne
  have hd : c = d := by
    rw [hname] at htext
    rcases htext with htext | htext
    · exact (List.cons.inj htext).1
    · exact (List.cons.inj htext).1
  rw [hd, hdigits d List.mem_cons_self] at hc
  cases hc

end Path

-- ---------------------------------------------------------------------------
-- Keys
-- ---------------------------------------------------------------------------

namespace Tree

open ContestTests.Path

variable {t : Tree} {base path : String} {way key : Key} {name : String} {entry : Entry}

/-- Where a path leads by its text alone. -/
def keyOf (t : Tree) (path : String) : Key :=
  ((pieces path).map Component.ofPiece).foldl stepFrom (if isAbsolute path then [] else t.current)

theorem foldl_stepFrom_entries (key way : Key) : (way.map Component.entry).foldl stepFrom key = key ++ way := by
  induction way generalizing key with
  | nil => simp
  | cons name way ih =>
    rw [List.map_cons, List.foldl_cons, ih, stepFrom, List.append_assoc]
    rfl

theorem map_ofPiece_way (h : IsWay way) :
    (way.map String.toList).map Component.ofPiece = way.map Component.entry := by
  rw [List.map_map]
  exact List.map_congr_left fun name hname => (h name hname).ofPiece

theorem up_not_mem_wayText (h : IsWay way) : .up ∉ components (Task.wayText way) := by
  rw [mem_components_iff (by simp) (by simp), pieces_wayText h, map_ofPiece_way h]
  simp

theorem directory_of_ne_nil (base : String) (h : IsWay way) (hne : way ≠ []) :
    Task.directory base (Task.wayText way) = join base (Task.wayText way) := by
  refine if_neg fun hempty => hne (wayText_injective h (by simp [IsWay]) ?_)
  exact (String.isEmpty_iff.mp hempty).trans wayText_nil.symm

theorem up_not_mem_directory (h : IsWay way) (hbase : .up ∉ components base) :
    .up ∉ components (Task.directory base (Task.wayText way)) := by
  by_cases hway : way = []
  · rw [hway]
    exact hbase
  · rw [directory_of_ne_nil base h hway]
    exact up_not_mem_join (isAbsolute_wayText h) hbase (up_not_mem_wayText h)

theorem keyOf_join_way (t : Tree) (base : String) (h : IsWay way) :
    t.keyOf (join base (Task.wayText way)) = t.keyOf base ++ way := by
  have habs := isAbsolute_wayText h
  rw [keyOf, pieces_join habs, isAbsolute_join habs, pieces_wayText h, List.map_append, List.foldl_append,
    map_ofPiece_way h, foldl_stepFrom_entries]
  rfl

theorem keyOf_directory (t : Tree) (base : String) (h : IsWay way) :
    t.keyOf (Task.directory base (Task.wayText way)) = t.keyOf base ++ way := by
  by_cases hway : way = []
  · rw [hway, List.append_nil]
    rfl
  · rw [directory_of_ne_nil base h hway, keyOf_join_way t base h]

theorem keyOf_join_name (t : Tree) (base : String) (h : IsName name) :
    t.keyOf (join base name) = t.keyOf base ++ [name] := by
  rw [← keyOf_join_way t base h.isWay, wayText_singleton]

theorem up_not_mem_join_name (h : IsName name) (hbase : .up ∉ components base) :
    .up ∉ components (join base name) := by
  have hname := up_not_mem_wayText h.isWay
  rw [wayText_singleton] at hname
  exact up_not_mem_join h.isAbsolute hbase hname

theorem foldl_stepsOf (path : String) (key : Key) :
    (stepsOf path).foldl stepFrom key = ((pieces path).map Component.ofPiece).foldl stepFrom key := by
  rw [stepsOf, List.foldl_append]
  split <;> rfl

theorem proper_stepsOf : ∀ step ∈ stepsOf path, Proper step := by
  intro step hstep
  rcases List.mem_append.mp hstep with hstep | hstep
  · obtain ⟨piece, hpiece, rfl⟩ := List.mem_map.mp hstep
    exact proper_ofPiece hpiece
  · obtain rfl : step = .here := by
      split at hstep <;> simp_all
    exact ⟨by simp, by simp⟩

theorem up_not_mem_stepsOf (h : .up ∉ components path) : .up ∉ stepsOf path := by
  rw [mem_components_iff (by simp) (by simp)] at h
  refine fun hmem => (List.mem_append.mp hmem).elim h fun hmem => ?_
  split at hmem <;> simp at hmem

theorem keyOf_congr {t' : Tree} (h : t'.current = t.current) (path : String) : t'.keyOf path = t.keyOf path := by
  rw [keyOf, keyOf, h]

theorem pieces_dropSlash (path : String) : pieces (dropSlash path) = pieces path := by
  rcases dropSlash_cases path with h | ⟨slashes, hslashes, htext, -⟩
  · rw [h]
  · show piecesOf (dropSlash path).toList = piecesOf path.toList
    rw [htext, piecesOf_append_slashes _ hslashes]

theorem isAbsolute_dropSlash (path : String) : isAbsolute (dropSlash path) = isAbsolute path := by
  rcases dropSlash_cases path with h | ⟨slashes, -, htext, hne⟩
  · rw [h]
  · rw [isAbsolute, isAbsolute, htext, List.head?_append_of_ne_nil _ hne]

theorem keyOf_dropSlash (t : Tree) (path : String) : t.keyOf (dropSlash path) = t.keyOf path := by
  rw [keyOf, keyOf, pieces_dropSlash, isAbsolute_dropSlash]

theorem foldl_rooted (root : Bool) (cs : List Component) (current : Key) :
    (rooted root cs).foldl stepFrom current = cs.foldl stepFrom (if root then [] else current) := by
  cases root <;> rfl

theorem foldl_filter_here (cs : List Component) (key : Key) :
    (cs.filter (· != .here)).foldl stepFrom key = cs.foldl stepFrom key := by
  induction cs generalizing key with
  | nil => rfl
  | cons c cs ih =>
    by_cases hc : c = .here
    · subst hc
      exact ih key
    · rw [List.filter_cons_of_pos (by simpa using hc)]
      exact ih _

theorem foldl_components (t : Tree) (path : String) : (components path).foldl stepFrom t.current = t.keyOf path := by
  obtain ⟨cs, hcs, -, hfilter⟩ := components_eq path
  have hfold (key : Key) : cs.foldl stepFrom key = ((pieces path).map Component.ofPiece).foldl stepFrom key := by
    rw [← foldl_filter_here cs, hfilter, foldl_filter_here]
  rw [hcs, keyOf, ← hfold]
  cases isAbsolute path <;> rfl

theorem ofComponents_rooted (root : Bool) {cs : List Component} (h : ∀ c ∈ cs, Proper c) :
    ofComponents (rooted root cs) = (if root then "/" else "") ++ joinTexts "/" (cs.map Component.text) := by
  cases root with
  | true => rfl
  | false =>
    have htext : ofComponents cs = joinTexts "/" (cs.map Component.text) := by
      cases cs with
      | nil => rfl
      | cons c cs =>
        cases c with
        | root => exact absurd rfl (h Component.root List.mem_cons_self).1
        | here | up | entry name => rfl
    exact htext.trans (String.empty_append).symm

theorem texts_of_proper {cs : List Component} (h : ∀ c ∈ cs, Proper c) :
    ∀ s ∈ cs.map Component.text, s ≠ "" ∧ '/' ∉ s.toList := by
  intro s hs
  obtain ⟨c, hc, rfl⟩ := List.mem_map.mp hs
  exact (h c hc).text.1

theorem map_ofPiece_joinTexts {cs : List Component} (h : ∀ c ∈ cs, Proper c) :
    (pieces (joinTexts "/" (cs.map Component.text))).map Component.ofPiece = cs := by
  rw [pieces_joinTexts (texts_of_proper h), List.map_map, List.map_map]
  exact (List.map_congr_left fun c hc => (h c hc).text.2).trans (List.map_id cs)

theorem pieces_ofComponents (root : Bool) {cs : List Component} (h : ∀ c ∈ cs, Proper c) :
    (pieces (ofComponents (rooted root cs))).map Component.ofPiece = cs ∧
      isAbsolute (ofComponents (rooted root cs)) = root := by
  rw [ofComponents_rooted root h]
  cases root with
  | true =>
    rw [if_pos rfl, pieces_slash]
    exact ⟨map_ofPiece_joinTexts h, isAbsolute_slash _⟩
  | false =>
    rw [if_neg (by simp), String.empty_append]
    exact ⟨map_ofPiece_joinTexts h, isAbsolute_joinTexts (texts_of_proper h)⟩

theorem keyOf_ofComponents (t : Tree) (root : Bool) {cs : List Component} (h : ∀ c ∈ cs, Proper c) :
    t.keyOf (ofComponents (rooted root cs)) = (rooted root cs).foldl stepFrom t.current := by
  obtain ⟨hpieces, habs⟩ := pieces_ofComponents root h
  rw [keyOf, hpieces, habs, foldl_rooted]

theorem prefix_foldl_stepFrom {cs : List Component} (h : ∀ c ∈ cs, Proper c) (hup : .up ∉ cs) (key : Key) :
    key <+: cs.foldl stepFrom key := by
  induction cs generalizing key with
  | nil => exact List.prefix_rfl
  | cons c cs ih =>
    obtain ⟨hc, hcs⟩ := List.forall_mem_cons.mp h
    have hmore := ih hcs (fun hmem => hup (List.mem_cons_of_mem _ hmem)) (stepFrom key c)
    refine List.IsPrefix.trans ?_ hmore
    cases c with
    | root => exact absurd rfl hc.1
    | here => exact List.prefix_rfl
    | up => exact absurd List.mem_cons_self hup
    | entry name => exact List.prefix_append key [name]

theorem first_components {cs : List Component} (hne : cs ≠ []) (h : cs <+: components path) :
    ∃ first more, cs = rooted (isAbsolute path) first ∧ components path = cs ++ more ∧
      (first ++ more).Sublist ((pieces path).map Component.ofPiece) := by
  obtain ⟨inner, hinner, hsub, -⟩ := components_eq path
  obtain ⟨more, hmore⟩ := h
  have hsplit := hmore.trans hinner
  cases habs : isAbsolute path with
  | true =>
    rw [habs] at hsplit
    cases cs with
    | nil => exact absurd rfl hne
    | cons c first =>
      obtain ⟨rfl, hinit⟩ := List.cons_eq_cons.mp hsplit
      refine ⟨first, more, rfl, hmore.symm, ?_⟩
      rwa [show first ++ more = inner from hinit]
  | false =>
    rw [habs] at hsplit
    exact ⟨cs, more, rfl, hmore.symm, by rwa [hsplit]⟩

theorem keyOf_first (t : Tree) {cs : List Component} (hne : cs ≠ []) (h : cs <+: components path) :
    t.keyOf (ofComponents cs) = cs.foldl stepFrom t.current := by
  obtain ⟨first, more, rfl, -, hsub⟩ := first_components hne h
  exact keyOf_ofComponents t _ fun c hc => proper_of_sublist hsub c (List.mem_append_left _ hc)

theorem foldl_first_components (hup : .up ∉ components path) {cs ds : List Component} (hne : cs ≠ []) (h : cs <+: ds)
    (hds : ds <+: components path) (current : Key) : cs.foldl stepFrom current <+: ds.foldl stepFrom current := by
  obtain ⟨more, rfl⟩ := h
  obtain ⟨first, rest, -, hsplit, hsub⟩ := first_components hne ((List.prefix_append _ _).trans hds)
  rw [hsplit, List.prefix_append_right_inj] at hds
  rw [List.foldl_append]
  exact prefix_foldl_stepFrom (fun c hc => proper_of_sublist hsub c (List.mem_append_right _ (hds.mem hc)))
    (fun hmem => hup (hsplit ▸ List.mem_append_right _ (hds.mem hmem))) _

/-- The first components of a path without steps up lead to something above it. -/
theorem keyOf_first_components (t : Tree) (hup : .up ∉ components path) {cs : List Component} (hne : cs ≠ [])
    (h : cs <+: components path) : t.keyOf (ofComponents cs) <+: t.keyOf path := by
  rw [keyOf_first t hne h, ← foldl_components]
  exact foldl_first_components hup hne h List.prefix_rfl _

theorem follow_append (start : Key) (steps more : List Component) :
    t.follow start (steps ++ more) = (t.follow start steps).bind fun key => t.follow key more := by
  induction steps generalizing start with
  | nil => rfl
  | cons step steps ih =>
    rw [List.cons_append, follow, follow]
    split
    · rfl
    · rfl
    · split
      · exact ih _
      · rfl

theorem follow_cons_eq_ok {step : Component} {steps : List Component} :
    t.follow start (step :: steps) = .ok key ↔
      t.find? start = some .directory ∧ nameFits step ∧ t.follow (stepFrom start step) steps = .ok key := by
  rw [follow]
  split
  · simp_all
  · simp_all
  · split <;> simp_all

theorem follow_eq_ok_iff {steps : List Component} : t.follow start steps = .ok key ↔
    key = steps.foldl stepFrom start ∧ (∀ step ∈ steps, nameFits step) ∧
      ∀ first more, steps = first ++ more → more ≠ [] → t.find? (first.foldl stepFrom start) = some .directory := by
  induction steps generalizing start with
  | nil =>
    constructor
    · intro h
      cases h
      refine ⟨rfl, by simp, fun first more hsplit hmore => ?_⟩
      exact absurd (List.append_eq_nil_iff.mp hsplit.symm).2 hmore
    · rintro ⟨rfl, -, -⟩
      rfl
  | cons step steps ih =>
    rw [follow_cons_eq_ok, ih, List.forall_mem_cons]
    constructor
    · rintro ⟨hstart, hfits, rfl, hfit, habove⟩
      refine ⟨rfl, ⟨hfits, hfit⟩, fun first more hsplit hmore => ?_⟩
      cases first with
      | nil => exact hstart
      | cons s first =>
        obtain ⟨rfl, hrest⟩ := List.cons_eq_cons.mp hsplit
        exact habove first more hrest hmore
    · rintro ⟨rfl, ⟨hfits, hfit⟩, habove⟩
      refine ⟨habove [] _ rfl (by simp), hfits, rfl, hfit, fun first more hsplit hmore => ?_⟩
      exact habove (step :: first) more (by rw [hsplit, List.cons_append]) hmore

theorem locate_eq_ok_iff : t.locate path = .ok key ↔
    path ≠ "" ∧ '\x00' ∉ path.toList ∧ pathFits path ∧
      t.follow (if isAbsolute path then [] else t.current) (stepsOf path) = .ok key := by
  unfold locate
  by_cases hempty : path = ""
  · simp [hempty]
  by_cases hnul : '\x00' ∈ path.toList
  · simp [hempty, hnul]
  cases hfits : pathFits path <;> simp [hempty, hnul]

theorem locate_eq_ok (h : t.locate path = .ok key) : key = t.keyOf path := by
  obtain ⟨-, -, -, hfollow⟩ := locate_eq_ok_iff.mp h
  rw [(follow_eq_ok_iff.mp hfollow).1, foldl_stepsOf]
  rfl

theorem look_eq_ok : t.look path = .ok (key, entry) ↔ t.locate path = .ok key ∧ t.find? key = some entry := by
  rw [look, bind_eq_ok]
  constructor
  · rintro ⟨k, hk, h⟩
    split at h
    · cases h
    · rename_i e he
      cases h
      exact ⟨hk, he⟩
  · rintro ⟨hk, he⟩
    exact ⟨key, hk, by rw [he]⟩

theorem exists_of_look_bind {f : Key × Entry → Except Fault α} {x : α} (h : t.look path >>= f = .ok x) : ∃ entry,
    t.locate path = .ok (t.keyOf path) ∧ t.find? (t.keyOf path) = some entry ∧ f (t.keyOf path, entry) = .ok x := by
  obtain ⟨⟨key, entry⟩, hlook, h⟩ := bind_eq_ok.mp h
  obtain ⟨hlocate, hfind⟩ := look_eq_ok.mp hlook
  obtain rfl := locate_eq_ok hlocate
  exact ⟨entry, hlocate, hfind, h⟩

theorem directoryKey_eq_ok : t.directoryKey path = .ok key ↔ t.look path = .ok (key, .directory) := by
  rw [directoryKey, bind_eq_ok]
  constructor
  · rintro ⟨⟨k, entry⟩, hlook, h⟩
    cases entry with
    | file content => cases h
    | directory =>
      cases h
      exact hlook
  · exact fun hlook => ⟨_, hlook, rfl⟩

theorem exists?_iff :
    t.exists? path ↔ ∃ entry, t.locate path = .ok (t.keyOf path) ∧ t.find? (t.keyOf path) = some entry := by
  rw [exists?]
  split
  · rename_i result hlook
    obtain ⟨key, entry⟩ := result
    obtain ⟨hlocate, hfind⟩ := look_eq_ok.mp hlook
    obtain rfl := locate_eq_ok hlocate
    exact iff_of_true rfl ⟨entry, hlocate, hfind⟩
  · rename_i hnone
    refine iff_of_false (by simp) ?_
    rintro ⟨entry, hstands⟩
    exact hnone _ (look_eq_ok.mpr hstands)

theorem isDirectory_iff :
    t.isDirectory path ↔ t.locate path = .ok (t.keyOf path) ∧ t.find? (t.keyOf path) = some .directory := by
  rw [isDirectory]
  split
  · rename_i key hlook
    obtain ⟨hlocate, hfind⟩ := look_eq_ok.mp hlook
    obtain rfl := locate_eq_ok hlocate
    exact iff_of_true rfl ⟨hlocate, hfind⟩
  · rename_i hnone
    refine iff_of_false (by simp) fun hdir => ?_
    exact hnone _ (look_eq_ok.mpr hdir)

theorem isFile_iff : t.isFile path ↔ ∃ key content, t.look path = .ok (key, .file content) := by
  rw [isFile]
  split
  · rename_i key content hlook
    exact iff_of_true rfl ⟨key, content, hlook⟩
  · rename_i hnone
    exact iff_of_false (by simp) fun ⟨key, content, hlook⟩ => hnone key content hlook

theorem exists?_of_look (h : t.look path = .ok found) : t.exists? path := by
  rw [exists?, h]

theorem readText_of_look (h : t.look path = .ok (key, .file content)) : t.readText path =
    match String.fromUTF8? content with
    | some text => .ok text
    | none => .error .notUtf8 := by
  rw [readText, read, h]
  rfl

theorem readText_eq_ok : t.readText path = .ok text ↔
    ∃ key content, t.look path = .ok (key, .file content) ∧ String.fromUTF8? content = some text := by
  constructor
  · intro h
    obtain ⟨content, hread, htext⟩ := bind_eq_ok.mp h
    obtain ⟨⟨key, entry⟩, hlook, hfile⟩ := bind_eq_ok.mp hread
    cases entry with
    | directory => cases hfile
    | file _ =>
      cases hfile
      refine ⟨key, content, hlook, ?_⟩
      split at htext <;> cases htext
      assumption
  · rintro ⟨key, content, hlook, htext⟩
    rw [readText_of_look hlook, htext]

theorem not_exists_of_find? (h : t.find? (t.keyOf path) = none) : t.exists? path = false := by
  refine Bool.eq_false_iff.mpr fun hexists => ?_
  obtain ⟨entry, -, hfind⟩ := exists?_iff.mp hexists
  rw [h] at hfind
  cases hfind

theorem find?_of_vacant (h : ¬ t.exists? path) (hlocate : t.locate path = .ok key) : t.find? key = none := by
  obtain rfl := locate_eq_ok hlocate
  cases hfind : t.find? (t.keyOf path) with
  | none => rfl
  | some entry => exact absurd (exists?_iff.mpr ⟨entry, hlocate, hfind⟩) h

end Tree

end ContestTests
