import ContestTests.Command.Run
import ContestTests.Proofs.Selection.Dialogue
import ContestTests.Proofs.Text.Encoding

/-!
# The prompt

The answers at the prompt are the lines of the input. A last line need not be ended, and blanks around an
answer are not looked at, so that the prompt comes to what a dialogue with these lines comes to. It announces
itself once; every question lists all candidates, and between two questions stands what was wrong with the answer.
-/

namespace ContestTests

open Text

-- ---------------------------------------------------------------------------
-- Lines of an input
-- ---------------------------------------------------------------------------

namespace Command

variable {line rest : List UInt8} {text : List Char} {script : List String}

/-- The lines of a text, each ended but perhaps the last. -/
inductive Script : List Char → List String → Prop
  | nil : Script [] []
  | unended {line : List Char} (hne : line ≠ []) (hline : '\n' ∉ line) : Script line [String.ofList line]
  | ended {line text : List Char} {script : List String} (hline : '\n' ∉ line) (h : Script text script) :
      Script (line ++ '\n' :: text) (String.ofList line :: script)

theorem exists_script (text : List Char) : ∃ script, Script text script := by
  induction text with
  | nil => exact ⟨[], .nil⟩
  | cons c text ih =>
    obtain ⟨script, hscript⟩ := ih
    by_cases hc : c = '\n'
    · exact ⟨"" :: script, hc ▸ .ended List.not_mem_nil hscript⟩
    · cases hscript with
      | nil => exact ⟨_, .unended (List.cons_ne_nil c []) (by simpa using Ne.symm hc)⟩
      | unended _ hline => exact ⟨_, .unended (List.cons_ne_nil c _) (List.not_mem_cons_of_ne_of_not_mem (Ne.symm hc) hline)⟩
      | ended hline hrest =>
        have hcons := List.not_mem_cons_of_ne_of_not_mem (Ne.symm hc) hline
        exact ⟨_, .ended hcons hrest⟩

theorem inputLines_ended (h : '\n'.toUInt8 ∉ line) (rest : List UInt8) :
    inputLines (line ++ '\n'.toUInt8 :: rest) = line :: inputLines rest := by
  induction line with
  | nil => rw [List.nil_append, inputLines, if_pos rfl]
  | cons b line ih =>
    obtain ⟨hb, hline⟩ := List.ne_and_not_mem_of_not_mem_cons h
    rw [List.cons_append, inputLines, if_neg (Ne.symm hb), ih hline]

theorem inputLines_unended (hne : line ≠ []) (h : '\n'.toUInt8 ∉ line) : inputLines line = [line] := by
  induction line with
  | nil => exact absurd rfl hne
  | cons b line ih =>
    obtain ⟨hb, hline⟩ := List.ne_and_not_mem_of_not_mem_cons h
    rw [inputLines, if_neg (Ne.symm hb)]
    cases line with
    | nil => rfl
    | cons d line => rw [ih (List.cons_ne_nil d line) hline]

theorem decodeLines_script (h : Script text script) : decodeLines (inputLines (encode text)) = (script, none) := by
  induction h with
  | nil => rfl
  | unended hne hline =>
    rw [inputLines_unended (encode_ne_nil hne) (lineFeed_notMem_encode hline), decodeLines, fromUTF8?_encode]
    rfl
  | ended hline _ ih =>
    have hfeed : String.utf8EncodeChar '\n' = ['\n'.toUInt8] := rfl
    rw [encode_append, encode_cons, hfeed, List.singleton_append, inputLines_ended (lineFeed_notMem_encode hline),
      decodeLines, fromUTF8?_encode]
    dsimp only
    rw [ih]

theorem ofInput_script {input : String} (h : Script input.toList script) (baseDir home : Option String) :
    Environment.ofInput baseDir home input.toUTF8 = ⟨baseDir, home, script, none⟩ := by
  rw [Environment.ofInput, toList_toUTF8, decodeLines_script h]

-- ---------------------------------------------------------------------------
-- What is shown
-- ---------------------------------------------------------------------------

/-- A line for each candidate, from a number on: the number takes two places. -/
def choiceLines (n : Nat) : List Candidate → String
  | [] => ""
  | c :: more => "[" ++ (if n < 10 then " " else "") ++ n.repr ++ "] " ++ c.name ++ "\n" ++ choiceLines (n + 1) more

def questionText (candidates : List Candidate) : String :=
  "\nChoose one of the following:\n[ 0] cancel\n" ++ choiceLines 1 candidates ++ "\n> "

def objectionText : ChoiceProblem → String
  | .notANumber => "Input is invalid!\n"
  | .outOfRange _ => "Incorrect choice!\n"

/-- A question, and after every objection the same question again. -/
def transcript (candidates : List Candidate) : List ChoiceProblem → String
  | [] => questionText candidates
  | problem :: problems => questionText candidates ++ objectionText problem ++ transcript candidates problems

def announcement : String := "More than one type was detected. Asking for input.\n"

theorem padLeft_decimal (n : Nat) : padLeft 2 (decimal n) = (if n < 10 then " " else "") ++ n.repr := by
  have hlength : n.repr.length = (Nat.toDigits 10 n).length := by rw [← String.length_toList, Nat.toList_repr]
  have hshort : n.repr.length ≤ 1 ↔ n < 10 := by
    rw [hlength, Nat.length_toDigits_le_iff (by decide) (by decide), Nat.pow_one]
  have hpos : 0 < n.repr.length := hlength ▸ Nat.length_toDigits_pos
  rw [padLeft, decimal]
  split
  · have hone : 2 - n.repr.length = 1 := by omega
    rw [hone]
    rfl
  · have hnone : 2 - n.repr.length = 0 := by omega
    rw [hnone]
    rfl

theorem unlines_append (lines more : List String) :
    Report.unlines (lines ++ more) = Report.unlines lines ++ Report.unlines more := by
  rw [Report.unlines, List.map_append, String.join_append]
  rfl

theorem unlines_cons (line : String) (more : List String) :
    Report.unlines (line :: more) = line ++ "\n" ++ Report.unlines more := by
  rw [Report.unlines, List.map_cons, String.join_cons]
  rfl

theorem unlines_choiceLines (candidates : List Candidate) (n : Nat) :
    Report.unlines (((candidates.map (·.name)).zipIdx n).map fun e =>
      "[" ++ padLeft 2 (decimal (e.2 + 1)) ++ "] " ++ e.1) = choiceLines (n + 1) candidates := by
  induction candidates generalizing n with
  | nil => rfl
  | cons c candidates ih =>
    rw [List.map_cons, List.zipIdx_cons, List.map_cons, unlines_cons, ih, padLeft_decimal, choiceLines]
    simp only [String.append_assoc]

theorem question_eq (candidates : List Candidate) : Report.question (candidates.map (·.name)) = questionText candidates := by
  have hhead : Report.unlines ["", "Choose one of the following:", "[ 0] cancel"] =
      "\nChoose one of the following:\n[ 0] cancel\n" := by decide +kernel
  have hlast : Report.unlines [""] ++ "> " = "\n> " := by decide +kernel
  rw [Report.question, unlines_append, unlines_append, hhead, String.append_assoc, hlast]
  exact congrArg (fun lines => "\nChoose one of the following:\n[ 0] cancel\n" ++ lines ++ "\n> ")
    (unlines_choiceLines candidates 0)

theorem exchange_retry (answer : String) (problem : ChoiceProblem) :
    Report.exchange (.retry answer problem) = objectionText problem := by
  cases problem <;> rfl

theorem join_asked (candidates : List Candidate) (objections : List (String × ChoiceProblem)) :
    String.join ((asked candidates objections).map Report.exchange) =
      transcript candidates (objections.map Prod.snd) := by
  induction objections with
  | nil => exact question_eq candidates
  | cons o objections ih =>
    have hasked : asked candidates (o :: objections) = .ask candidates :: .retry o.1 o.2 :: asked candidates objections := rfl
    rw [hasked, List.map_cons, List.map_cons, String.join_cons, String.join_cons, ih, exchange_retry, Report.exchange,
      question_eq, List.map_cons, transcript, String.append_assoc]

/-- What a dialogue prints, up to a question that is still open. -/
theorem dialogue_asked (candidates : List Candidate) (objections : List (String × ChoiceProblem)) :
    Report.dialogue (asked candidates objections) = announcement ++ transcript candidates (objections.map Prod.snd) := by
  rw [Report.dialogue, join_asked, if_neg (by simp [asked])]
  rfl

theorem exchange_trimmed (e : Exchange) : Report.exchange e.trimmed = Report.exchange e := by
  cases e with
  | ask shown => rfl
  | retry answer problem => rfl

theorem dialogue_trimmed (exchanges : List Exchange) :
    Report.dialogue (exchanges.map Exchange.trimmed) = Report.dialogue exchanges := by
  have hmap : (exchanges.map Exchange.trimmed).map Report.exchange = exchanges.map Report.exchange := by
    rw [List.map_map]
    exact List.map_congr_left fun e _ => exchange_trimmed e
  rw [Report.dialogue, Report.dialogue, hmap, List.isEmpty_map]

/-- Where the input just ends, the prompt comes to what a dialogue with its lines comes to. -/
theorem choose_eq_resolve {env : Environment} (h : env.inputFault = none) (auto : Bool) (candidates : List Candidate)
    (p : Progress) : Run.choose env auto candidates p =
      Run.ofExcept (Selection.resolve auto candidates env.answers).result
        { p with out := p.out ++ Report.dialogue (Selection.resolve auto candidates env.answers).exchanges } := by
  obtain ⟨hresult, hexchanges⟩ := Selection.resolve_trimmed auto candidates env.answers
  rw [← hresult, ← dialogue_trimmed, ← hexchanges]
  unfold Run.choose
  rw [h]
  generalize (Selection.resolve auto candidates (env.answers.map trimmed)) = outcome
  cases outcome.result with
  | ok selection => rfl
  | error failure => cases failure <;> rfl

end Command

-- ---------------------------------------------------------------------------
-- The dialogue
-- ---------------------------------------------------------------------------

namespace Selection

/-- The first usable answer decides. It is asked for once more than there are answers before it, about the
same candidates each time, and what is behind it stays; without one the dialogue ends with the answers.
Lines of an input are answers like these, and the operator sees every question and every objection. -/
theorem first_usable_decides (candidates : List Candidate) (hcount : 2 ≤ candidates.length) :
    (∀ before answer after v, (∀ a ∈ before, ¬Usable candidates.length a) → Gives answer v → v ≤ candidates.length →
      ∃ objections selection, Refused candidates.length before objections ∧
        decision? candidates v = some selection ∧
        resolve false candidates (before ++ answer :: after) = ⟨asked candidates objections, after, .ok selection⟩) ∧
    (∀ answers, (∀ a ∈ answers, ¬Usable candidates.length a) →
      ∃ objections, Refused candidates.length answers objections ∧
        resolve false candidates answers = ⟨asked candidates objections, [], .error .promptClosed⟩) ∧
    ∀ (baseDir home : Option String) (input : String) p, (∃ script, Command.Script input.toList script) ∧
      (∀ before answer after v, Command.Script input.toList (before ++ answer :: after) →
        (∀ a ∈ before, ¬Usable candidates.length a) → Gives answer v → v ≤ candidates.length →
        ∃ objections selection, Refused candidates.length before objections ∧
          decision? candidates v = some selection ∧
          Command.Run.choose (.ofInput baseDir home input.toUTF8) false candidates p = .ok selection
            { p with out := p.out ++ (Command.announcement ++
              Command.transcript candidates (objections.map Prod.snd)) }) ∧
      ∀ script, Command.Script input.toList script → (∀ a ∈ script, ¬Usable candidates.length a) →
        ∃ objections, Refused candidates.length script objections ∧
          Command.Run.choose (.ofInput baseDir home input.toUTF8) false candidates p = .error .promptClosed
            { p with out := p.out ++ (Command.announcement ++
              Command.transcript candidates (objections.map Prod.snd)) } := by
  refine ⟨fun before answer after v hbefore hgives hv => resolve_gives hcount hbefore hgives hv after,
    fun answers => resolve_refused hcount, fun baseDir home input p => ⟨Command.exists_script _, ?_, ?_⟩⟩
  · intro before answer after v hscript hbefore hgives hv
    obtain ⟨objections, selection, hrefused, hdecision, hresolve⟩ := resolve_gives hcount hbefore hgives hv after
    refine ⟨objections, selection, hrefused, hdecision, ?_⟩
    rw [Command.ofInput_script hscript, Command.choose_eq_resolve rfl, hresolve, Command.dialogue_asked]
    rfl
  · intro script hscript hanswers
    obtain ⟨objections, hrefused, hresolve⟩ := resolve_refused hcount hanswers
    refine ⟨objections, hrefused, ?_⟩
    rw [Command.ofInput_script hscript, Command.choose_eq_resolve rfl, hresolve, Command.dialogue_asked]
    rfl

theorem second_chosen_at_last :
    let candidates : List Candidate := [⟨"IOI", []⟩, ⟨"ACM", []⟩]
    2 ≤ candidates.length ∧ (∀ a ∈ ["abc", "3"], ¬Usable 2 a) ∧ Gives " +02\r" 2 ∧
      (∃ objections, Refused 2 ["abc", "3"] objections ∧
        resolve false candidates ["abc", "3", " +02\r", "1"] =
          ⟨asked candidates objections, ["1"], .ok (.selected ⟨"ACM", []⟩ .chosen)⟩) ∧
      Command.Script "abc\n3\n +02\r\n1".toList ["abc", "3", " +02\r", "1"] ∧
      ∀ p, Command.Run.choose (.ofInput none none "abc\n3\n +02\r\n1".toUTF8) false candidates p =
        .ok (.selected ⟨"ACM", []⟩ .chosen) { p with out := p.out ++
          ("More than one type was detected. Asking for input.\n" ++
            "\nChoose one of the following:\n[ 0] cancel\n[ 1] IOI\n[ 2] ACM\n\n> Input is invalid!\n" ++
            "\nChoose one of the following:\n[ 0] cancel\n[ 1] IOI\n[ 2] ACM\n\n> Incorrect choice!\n" ++
            "\nChoose one of the following:\n[ 0] cancel\n[ 1] IOI\n[ 2] ACM\n\n> ") } := by
  have hbefore : ∀ a ∈ ["abc", "3"], ¬Usable 2 a := by decide +kernel
  have hgives : Gives " +02\r" 2 := by decide +kernel
  obtain ⟨hanswers, -, hprompt⟩ := first_usable_decides [⟨"IOI", []⟩, ⟨"ACM", []⟩] (by decide)
  obtain ⟨objections, selection, hrefused, hdecision, hresolve⟩ :=
    hanswers ["abc", "3"] " +02\r" ["1"] 2 hbefore hgives (by decide)
  cases hdecision
  have hscript : Command.Script "abc\n3\n +02\r\n1".toList ["abc", "3", " +02\r", "1"] :=
    @Command.Script.ended "abc".toList _ _ (by decide) (@Command.Script.ended "3".toList _ _ (by decide)
      (@Command.Script.ended " +02\r".toList _ _ (by decide)
        (@Command.Script.unended "1".toList (by decide) (by decide))))
  have hobjections : Refused 2 ["abc", "3"] [("abc", .notANumber), ("3", .outOfRange 2)] := by
    refine ⟨rfl, List.forall_mem_cons.mpr ⟨objects_notANumber (by decide +kernel), List.forall_mem_singleton.mpr ?_⟩⟩
    exact ⟨rfl, 3, by decide +kernel, by decide⟩
  refine ⟨by decide, hbefore, hgives, ⟨objections, hrefused, hresolve⟩, hscript, fun p => ?_⟩
  obtain ⟨told, selection, htold, hdecision, hchoose⟩ :=
    (hprompt none none _ p).2.1 ["abc", "3"] " +02\r" ["1"] 2 hscript hbefore hgives (by decide)
  cases hdecision
  cases htold.unique hobjections
  rw [hchoose]
  have hshown : Command.announcement ++ Command.transcript [⟨"IOI", []⟩, ⟨"ACM", []⟩] [.notANumber, .outOfRange 2] =
    "More than one type was detected. Asking for input.\n" ++
      "\nChoose one of the following:\n[ 0] cancel\n[ 1] IOI\n[ 2] ACM\n\n> Input is invalid!\n" ++
      "\nChoose one of the following:\n[ 0] cancel\n[ 1] IOI\n[ 2] ACM\n\n> Incorrect choice!\n" ++
      "\nChoose one of the following:\n[ 0] cancel\n[ 1] IOI\n[ 2] ACM\n\n> " := by decide +kernel
  exact congrArg (fun text => EStateM.Result.ok _ { p with out := p.out ++ text }) hshown

end Selection

end ContestTests
