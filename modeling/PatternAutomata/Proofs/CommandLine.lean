import Mathlib.Data.List.TakeWhile
import PatternAutomata.CommandLine.Contract
import PatternAutomata.Proofs.Matcher
import PatternAutomata.Proofs.Text.Unreadable
import PatternAutomata.Proofs.Text.Writing

/-!
# Runs of the command line

A run does what it owes to its arguments and its input: it refuses arguments without a pattern or
with a wrong one, and otherwise gives a verdict on every word.  Whether the words come as arguments
or as lines of the input makes no difference.  Only a run that takes its words from the input fails on
bytes that are no text, and it does so where the first line of them stands that is none.
-/

namespace PatternAutomata

namespace CommandLine

section Arguments

variable {arguments operands words : List (List Char)} {pattern : List Char} {wantsListing : Bool}

theorem splitDump_of_ne (different : pattern ≠ "--dump".toList) :
    splitDump (pattern :: words) = (false, pattern :: words) :=
  if_neg different

theorem splitDump_dump : splitDump ("--dump".toList :: words) = (true, words) := by
  rw [splitDump, if_pos rfl]

theorem asks_splitDump (arguments : List (List Char)) :
    Asks arguments (splitDump arguments).1 (splitDump arguments).2 := by
  cases arguments with
  | nil => exact .verdicts nofun
  | cons first rest =>
      by_cases dump : first = "--dump".toList
      · subst dump
        rw [splitDump_dump]
        exact .listing rest
      · rw [splitDump_of_ne dump]
        exact .verdicts fun same => dump (Option.some.inj same)

theorem Asks.splitDump_eq (asks : Asks arguments wantsListing operands) :
    splitDump arguments = (wantsListing, operands) := by
  cases asks with
  | listing operands => exact splitDump_dump
  | verdicts different =>
      cases arguments with
      | nil => rfl
      | cons first rest => exact splitDump_of_ne fun same => different (congrArg some same)

end Arguments

section Reading

open Text

/-- The words of an input that is the encoding of a text are the lines of the text. -/
theorem readWords_of_decode?
    {input : List UInt8} {text : List Char} (decoded : decode? input = some text) :
    readWords input = (textLines text, true) := by
  obtain rfl := decode?_eq_some_iff.mp decoded
  have whole : ((textLines text).map some).takeWhile Option.isSome = (textLines text).map some := by
    apply List.takeWhile_eq_self_iff.mpr
    simp
  rw [readWords, map_decode?_lines, whole]
  simp

/-- The words of an input that is no text are the lines before the first that is none. -/
theorem readWords_of_breaksOff
    {before line after : List UInt8} {text : List Char} (breaks : BreaksOff before line after)
    (decoded : decode? before = some text) :
    readWords (before ++ line ++ after) = (textLines text, false) := by
  obtain ⟨content, others, cut, unreadable⟩ := breaks.lines_eq
  have readable : (lines before).map decode? = (textLines text).map some := by
    rw [decode?_eq_some_iff.mp decoded, map_decode?_lines]
  have all : ∀ own ∈ (textLines text).map some, own.isSome = true := by
    simp
  rw [readWords, List.append_assoc, lines_append breaks.whole, cut, List.map_append, List.map_cons,
    readable, unreadable, List.takeWhile_append_of_pos all]
  simp

end Reading

section Reports

variable (matcher : Matcher) (report : Report)

theorem Report.foldl_add (words : List (List Char)) :
    words.foldl (Report.add matcher) report =
      ⟨report.out ++ words.flatMap fun word => verdictLine word (matcher.accepts word),
        report.allAccepted && words.all matcher.accepts⟩ := by
  induction words generalizing report with
  | nil => simp
  | cons word words ih =>
      rw [List.foldl_cons, ih, Report.add]
      simp [Bool.and_assoc]

/-- Reporting on lines is reporting on the words up to the first line that holds none.  If there is
such a line, then only what has been written is left. -/
theorem Report.foldlM_addLine (lines : List (List UInt8)) :
    lines.foldlM (Report.addLine matcher) report =
      let decoded := lines.map Text.decode?
      let reached :=
        ((decoded.takeWhile Option.isSome).filterMap id).foldl (Report.add matcher) report
      if decoded.all Option.isSome then .ok reached else .error reached.out := by
  induction lines generalizing report with
  | nil => rfl
  | cons line lines ih =>
      rw [List.foldlM_cons, Report.addLine, List.map_cons]
      cases Text.decode? line with
      | none => rfl
      | some word => exact ih (report.add matcher word)

/-- The words on which a run has to report, as far as it can read them, and whether it can read them
all. -/
def wordsRead (words : List (List Char)) (input : List UInt8) : List (List Char) × Bool :=
  if words.isEmpty then readWords input else (words, true)

theorem wordsRead_of_ne {words : List (List Char)} (given : words ≠ []) (input : List UInt8) :
    wordsRead words input = (words, true) :=
  if_neg (by simpa using given)

theorem Report.addAll_eq (words : List (List Char)) (input : List UInt8) :
    report.addAll matcher words input =
      let reached := (wordsRead words input).1.foldl (Report.add matcher) report
      if (wordsRead words input).2 then .ok reached else .error reached.out := by
  rw [Report.addAll, wordsRead]
  split
  · rw [Report.foldlM_addLine]
    rfl
  · rfl

end Reports

/-- The lines that a matcher writes say for each word whether the pattern matches it. -/
theorem forall₂_verdictLine (tree : Pattern) (words : List (List Char)) :
    List.Forall₂ (SaysVerdict tree.language) words
      (words.map fun word =>
        verdictLine word ((Matcher.mk tree.toNfa.determinize).accepts word)) := by
  rw [List.forall₂_map_right_iff, List.forall₂_same]
  intro word _
  rw [verdictLine]
  split
  · exact .accepted (Matcher.accepts_determinize_toNfa.mp ‹_›)
  · rename_i rejects
    exact .rejected fun member => rejects (Matcher.accepts_determinize_toNfa.mpr member)

/-- What is logged on the way to the automaton of the pattern. -/
def preparation (pattern : List Char) (tree : Pattern) : List Event :=
  .parsed pattern :: .compiled pattern tree.toNfa.states.size :: tree.toNfa.determinizeWithLog.2 ++
    [.ready pattern tree.toNfa.determinize.states.size]

/-- The outcome of a run that decides the words it has read by the automaton of the pattern, whether
these are all or a line after them cannot be read. -/
def decided (pattern : List Char) (tree : Pattern) (listing : List Char)
    (read : List (List Char) × Bool) : Outcome where
  ending :=
    if !read.2 then .unreadable
    else if read.1.all (Matcher.mk tree.toNfa.determinize).accepts then .accepted
    else .rejected
  out := listing ++ read.1.flatMap fun word =>
    verdictLine word ((Matcher.mk tree.toNfa.determinize).accepts word)
  err := []
  log := preparation pattern tree

section Decided

variable {pattern listing : List Char} {tree : Pattern} {words : List (List Char)}

theorem ending_decided_of_readable :
    (decided pattern tree listing (words, true)).ending =
      if words.all (Matcher.mk tree.toNfa.determinize).accepts then .accepted else .rejected :=
  rfl

theorem ending_decided_ne :
    (decided pattern tree listing (words, true)).ending ≠ .unreadable := by
  rw [ending_decided_of_readable]
  split <;> nofun

end Decided

theorem decides_decided
    (pattern : List Char) (tree : Pattern) (listing : List Char) (words : List (List Char)) :
    Decides tree.language listing words (decided pattern tree listing (words, true)) := by
  have all_iff : words.all (Matcher.mk tree.toNfa.determinize).accepts = true ↔
      ∀ word ∈ words, word ∈ tree.language := by
    simp only [List.all_eq_true, Matcher.accepts_determinize_toNfa]
  have not_all_iff : ¬words.all (Matcher.mk tree.toNfa.determinize).accepts = true ↔
      ∃ word ∈ words, word ∉ tree.language := by
    rw [all_iff]
    simp
  constructor
  · exact ⟨_, forall₂_verdictLine tree words, by rw [decided, List.flatMap]⟩
  · rfl
  · rw [ending_decided_of_readable, ← all_iff]
    split <;> simp_all [Ending.exitCode]
  · rw [ending_decided_of_readable, ← not_all_iff]
    split <;> simp_all [Ending.exitCode]

section Run

variable {arguments : List (List Char)} {wantsListing : Bool} {pattern : List Char}
  {words : List (List Char)}

theorem run_of_no_operand
    (splits : splitDump arguments = (wantsListing, [])) (input : List UInt8) :
    run arguments input = ⟨.refused, [], usage.toList, []⟩ := by
  rw [run, splits]

theorem run_of_error
    {error : SyntaxError} (splits : splitDump arguments = (wantsListing, pattern :: words))
    (failed : Pattern.parse pattern = .error error) (input : List UInt8) :
    run arguments input = ⟨.refused, [], errorReport error pattern, []⟩ := by
  simp only [run, splits, Matcher.prepare_of_error failed]

/-- A run with a pattern decides the words that it can read. -/
theorem run_of_ok
    {tree : Pattern} (splits : splitDump arguments = (wantsListing, pattern :: words))
    (parsed : Pattern.parse pattern = .ok tree) (input : List UInt8) :
    run arguments input = decided pattern tree
      (if wantsListing then tree.toNfa.determinize.renumber.listing else [])
      (wordsRead words input) := by
  simp only [run, splits, Matcher.prepare_of_ok parsed, Report.addAll_eq, Report.foldl_add, decided,
    preparation]
  cases (wordsRead words input).2 <;> rfl

/-- Of a pattern that can be parsed, a run shows nothing but its automaton. -/
theorem sameResult_of_toNfa_eq
    {first second : List (List Char)} {firstPattern secondPattern : List Char}
    {firstTree secondTree : Pattern} (same : firstTree.toNfa = secondTree.toNfa)
    (firstParsed : Pattern.parse firstPattern = .ok firstTree)
    (secondParsed : Pattern.parse secondPattern = .ok secondTree)
    (firstSplits : splitDump first = (wantsListing, firstPattern :: words))
    (secondSplits : splitDump second = (wantsListing, secondPattern :: words))
    (input : List UInt8) :
    SameResult (run first input) (run second input) := by
  rw [run_of_ok firstSplits firstParsed, run_of_ok secondSplits secondParsed]
  constructor <;> simp only [decided, same]

end Run

/-- A run on an input that is a text obeys its arguments, and the input has no influence if they
hold words. -/
theorem run_obeys
    (arguments : List (List Char)) {input : List UInt8} {text : List Char}
    (decoded : Text.decode? input = some text) :
    ∃ wantsListing operands, Asks arguments wantsListing operands ∧
      Obeys wantsListing text operands (run arguments input) ∧
        ∀ other, 1 < operands.length → run arguments other = run arguments input := by
  refine ⟨_, _, asks_splitDump arguments, ?_⟩
  rcases splits : splitDump arguments with ⟨wantsListing, operands⟩
  cases operands with
  | nil =>
      rw [run_of_no_operand splits]
      exact ⟨⟨rfl, rfl, rfl, rfl⟩, fun other more => absurd more (by simp)⟩
  | cons pattern words =>
      rw [Obeys]
      dsimp only
      cases parsed : Pattern.parse pattern with
      | error error =>
          rw [run_of_error splits parsed]
          exact ⟨⟨rfl, rfl, rfl, rfl⟩, fun other _ => run_of_error splits parsed other⟩
      | ok tree =>
          have reads : ∀ bytes, Text.decode? bytes = some text ∨ words ≠ [] →
              wordsRead words bytes =
                (if words.isEmpty then Text.textLines text else words, true) := by
            intro bytes readable
            cases words with
            | nil => exact readWords_of_decode? (readable.resolve_right (· rfl))
            | cons word words => rfl
          rw [run_of_ok splits parsed, reads input (.inl decoded)]
          refine ⟨⟨Pattern.denotes_of_parse parsed, decides_decided ..⟩, ?_⟩
          intro other more
          have given : words ≠ [] := by
            rintro rfl
            simp at more
          rw [run_of_ok splits parsed, reads other (.inr given)]

/-- A case without words, whose input ends its first line with a carriage return and a line feed,
and its last line with neither. -/
theorem run_obeys_lines :
    let arguments := [['a', '|', 'b']]
    let input : List UInt8 := [97, 13, 10, 10, 99]
    Text.decode? input = some ['a', '\r', '\n', '\n', 'c'] ∧
      Obeys false ['a', '\r', '\n', '\n', 'c'] arguments (run arguments input) := by
  intro arguments input
  have decoded : Text.decode? input = some ['a', '\r', '\n', '\n', 'c'] :=
    Text.decode?_eq_some_iff.mpr rfl
  obtain ⟨wantsListing, operands, asks, obeys, _⟩ := run_obeys arguments decoded
  generalize given : arguments = held at asks
  cases asks with
  | listing operands => exact absurd (List.cons.inj given).1 (by decide)
  | verdicts _ =>
      subst given
      exact ⟨decoded, obeys⟩

section Unreadable

variable {arguments operands : List (List Char)} {wantsListing : Bool}

theorem readsInput_iff (asks : Asks arguments wantsListing operands) :
    readsInput arguments = true ↔ ReadsLines operands := by
  rw [readsInput, asks.splitDump_eq]
  constructor
  · intro reads
    split at reads
    · rename_i pattern same
      cases parsed : Pattern.parse pattern with
      | error error =>
          rw [parsed] at reads
          cases reads
      | ok tree => exact ⟨pattern, tree, same, parsed⟩
    · cases reads
  · intro reads
    obtain ⟨pattern, tree, rfl, parsed⟩ := reads
    simp only [parsed]
    rfl

/-- What a run does not read has no influence on it. -/
theorem run_eq_of_not_readsInput
    (asks : Asks arguments wantsListing operands) (ignores : readsInput arguments = false)
    (input other : List UInt8) :
    run arguments input = run arguments other := by
  have splits := asks.splitDump_eq
  cases operands with
  | nil => rw [run_of_no_operand splits, run_of_no_operand splits]
  | cons pattern words =>
      cases parsed : Pattern.parse pattern with
      | error error => rw [run_of_error splits parsed, run_of_error splits parsed]
      | ok tree =>
          cases words with
          | nil =>
              have reads := (readsInput_iff asks).mpr ⟨pattern, tree, rfl, parsed⟩
              exact absurd (ignores.symm.trans reads) Bool.false_ne_true
          | cons word words =>
              have given := List.cons_ne_nil word words
              rw [run_of_ok splits parsed, run_of_ok splits parsed, wordsRead_of_ne given,
                wordsRead_of_ne given]

/-- A run that takes its words from the input stops at the first line that is no text. -/
theorem stopsAfter_run
    (asks : Asks arguments wantsListing operands) (reads : ReadsLines operands)
    {before line after : List UInt8} (breaks : Text.BreaksOff before line after) :
    StopsAfter (run arguments before) (run arguments (before ++ line ++ after)) := by
  obtain ⟨pattern, tree, rfl, parsed⟩ := reads
  have splits := asks.splitDump_eq
  obtain ⟨text, decoded⟩ := breaks.readable
  have reached : wordsRead [] before = (Text.textLines text, true) := readWords_of_decode? decoded
  have stopped : wordsRead [] (before ++ line ++ after) = (Text.textLines text, false) :=
    readWords_of_breaksOff breaks decoded
  rw [run_of_ok splits parsed, run_of_ok splits parsed, reached, stopped]
  exact ⟨rfl, rfl, rfl, rfl, ending_decided_ne⟩

theorem reads_of_unreadable
    (asks : Asks arguments wantsListing operands) {input : List UInt8}
    (fails : (run arguments input).ending = .unreadable) :
    ReadsLines operands ∧ Text.decode? input = none := by
  have splits := asks.splitDump_eq
  cases operands with
  | nil =>
      rw [run_of_no_operand splits] at fails
      cases fails
  | cons pattern words =>
      cases parsed : Pattern.parse pattern with
      | error error =>
          rw [run_of_error splits parsed] at fails
          cases fails
      | ok tree =>
          rw [run_of_ok splits parsed] at fails
          cases words with
          | cons word words =>
              rw [wordsRead_of_ne (List.cons_ne_nil word words)] at fails
              exact absurd fails ending_decided_ne
          | nil =>
              refine ⟨⟨pattern, tree, rfl, parsed⟩, ?_⟩
              apply Option.eq_none_iff_forall_ne_some.mpr
              intro text decoded
              have whole : wordsRead [] input = (Text.textLines text, true) :=
                readWords_of_decode? decoded
              rw [whole] at fails
              exact ending_decided_ne fails

/-- A run fails to read exactly if it takes its words from an input that is no text.  It has then
written what the input up to the first line that is none makes it write. -/
theorem run_unreadable
    (asks : Asks arguments wantsListing operands) (input : List UInt8) :
    ((run arguments input).ending = .unreadable ↔
      ReadsLines operands ∧ Text.decode? input = none) ∧
      (Text.decode? input = none →
        ∃ before line after, input = before ++ line ++ after ∧
          Text.BreaksOff before line after) ∧
        (ReadsLines operands → ∀ before line after, input = before ++ line ++ after →
          Text.BreaksOff before line after →
            StopsAfter (run arguments before) (run arguments input)) := by
  refine ⟨⟨reads_of_unreadable asks, ?_⟩, Text.exists_breaksOff, ?_⟩
  · intro given
    obtain ⟨reads, unreadable⟩ := given
    obtain ⟨before, line, after, rfl, breaks⟩ := Text.exists_breaksOff unreadable
    exact (stopsAfter_run asks reads breaks).ending_eq
  · intro reads before line after whole breaks
    rw [whole]
    exact stopsAfter_run asks reads breaks

/-- A case in which a character is cut off by a line feed, after a line that can be read and before
one that cannot. -/
theorem run_unreadable_truncated :
    let arguments := ["--dump".toList, ['a', '|', 'b']]
    let before : List UInt8 := [97, 13, 10]
    let line : List UInt8 := [98, 226, 130]
    let after : List UInt8 := [10, 255]
    Asks arguments true [['a', '|', 'b']] ∧ ReadsLines [['a', '|', 'b']] ∧
      Text.BreaksOff before line after ∧
      Text.decode? (before ++ line ++ after) = none ∧
      StopsAfter (run arguments before) (run arguments (before ++ line ++ after)) := by
  intro arguments before line after
  have asks : Asks arguments true [['a', '|', 'b']] := .listing _
  have reads : ReadsLines [['a', '|', 'b']] :=
    ⟨_, .union (.literal 'a') (.literal 'b'), rfl, Pattern.parse_eq_onePass _⟩
  have breaks : Text.BreaksOff before line after := by
    constructor
    · exact fun _ => rfl
    · exact ⟨['a', '\r', '\n'], Text.decode?_eq_some_iff.mpr rfl⟩
    · decide
    · decide +kernel
    · exact fun _ => rfl
  obtain ⟨unreadable_iff, _, stops⟩ := run_unreadable asks (before ++ line ++ after)
  have stopped := stops reads before line after rfl breaks
  exact ⟨asks, reads, breaks, (unreadable_iff.mp stopped.ending_eq).2, stopped⟩

end Unreadable

section Words

variable {first second : List (List Char)} {wantsListing : Bool} {pattern : List Char}
  {words : List (List Char)}

/-- A run that reads the words as the lines of its input is the run that is given the words. -/
theorem run_eq_of_textLines
    {text : List Char} (given : words ≠ []) (lines : Text.textLines text = words)
    (firstSplits : splitDump first = (wantsListing, [pattern]))
    (secondSplits : splitDump second = (wantsListing, pattern :: words)) (other : List UInt8) :
    run first (Text.encode text) = run second other := by
  have fromLines : wordsRead [] (Text.encode text) = (words, true) := by
    rw [← lines]
    exact readWords_of_decode? (Text.decode?_eq_some_iff.mpr rfl)
  cases parsed : Pattern.parse pattern with
  | error error => rw [run_of_error firstSplits parsed, run_of_error secondSplits parsed]
  | ok tree =>
      rw [run_of_ok firstSplits parsed, run_of_ok secondSplits parsed, fromLines,
        wordsRead_of_ne given]

/-- Words are treated alike as arguments and as lines of the input, whichever ending the lines have,
and whether or not the last line has one. -/
theorem run_lines_eq_run_words
    {ending : Text.LineEnding} {text : List Char} (given : words ≠ [])
    (fits : ∀ word ∈ words, ending.Fits word)
    (written : text = Text.writeLines ending words ∨
      words.getLast? ≠ some [] ∧ text ++ ending.text = Text.writeLines ending words)
    (pattern : List Char) (other : List UInt8) :
    (pattern ≠ "--dump".toList →
      run [pattern] (Text.encode text) = run (pattern :: words) other) ∧
    run ["--dump".toList, pattern] (Text.encode text) =
      run ("--dump".toList :: pattern :: words) other := by
  have lines : Text.textLines text = words := by
    apply Text.textLines_eq_iff.mpr
    rcases written with rfl | ⟨last, unfinished⟩
    · exact Text.consistsOf_writeLines fits
    · exact Text.consistsOf_of_writeLines fits given last unfinished
  constructor
  · intro different
    exact run_eq_of_textLines given lines (splitDump_of_ne different) (splitDump_of_ne different)
      other
  · exact run_eq_of_textLines given lines splitDump_dump splitDump_dump other

/-- A case with an empty word and a carriage return within a word, whose last line has no ending. -/
theorem run_lines_eq_run_words_unfinished :
    let words := [['a', '\r', 'b'], [], ['b']]
    let text := ['a', '\r', 'b', '\n', '\n', 'b']
    let input : List UInt8 := [97, 13, 98, 10, 10, 98]
    input = Text.encode text ∧
      run [['a', '|', 'b']] input = run (['a', '|', 'b'] :: words) [] ∧
      run ["--dump".toList, "--dump".toList] input =
        run ("--dump".toList :: "--dump".toList :: words) [] := by
  intro words text input
  have encoded : input = Text.encode text := rfl
  have fits : ∀ word ∈ words, Text.LineEnding.feed.Fits word := by
    simp only [words, List.forall_mem_cons]
    refine ⟨⟨by decide, by decide⟩, ⟨by decide, by decide⟩, ⟨by decide, by decide⟩, nofun⟩
  have unfinished : words.getLast? ≠ some [] ∧
      text ++ Text.LineEnding.feed.text = Text.writeLines .feed words := by decide
  have alike := run_lines_eq_run_words (by decide) fits (.inr unfinished)
  rw [encoded]
  exact ⟨rfl, (alike ['a', '|', 'b'] []).1 (by decide), (alike "--dump".toList []).2⟩

end Words

end CommandLine

end PatternAutomata
