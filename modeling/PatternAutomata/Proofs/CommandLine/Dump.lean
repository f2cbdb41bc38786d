import PatternAutomata.Proofs.CommandLine
import PatternAutomata.Proofs.Dfa.Listing

/-!
# Asking for the listing

A run that is asked for the listing of the automaton does what it would have done otherwise, and
writes the listing ahead.  Read back, the listing is an automaton that decides the words as the run
does.
-/

namespace PatternAutomata

/-- The text of the numbered automaton of a pattern is read back as an automaton of its language. -/
theorem Pattern.exists_automaton_of_listing (tree : Pattern) :
    ∃ automaton, Dfa.ofListing? tree.toNfa.determinize.renumber.listing = some automaton ∧
      tree.toNfa.determinize.renumber.IsToldBy automaton ∧
        ∀ word, automaton.accepts word = true ↔ word ∈ tree.language := by
  have nfaClosed := tree.built_toNfa.closed
  have closed := tree.toNfa.built_determinize.closed
  have isomorphism : Dfa.OrderIsomorphism tree.toNfa.determinize.number tree.toNfa.determinize
      tree.toNfa.determinize.renumber :=
    closed.orderIsomorphism_relabel Dfa.increasingOn_number
  have numberedClosed : tree.toNfa.determinize.renumber.Closed := closed.relabel _
  have numberedTotal : tree.toNfa.determinize.renumber.Total :=
    isomorphism.total (Nfa.total_determinize nfaClosed)
  obtain ⟨automaton, read, tells⟩ := numberedClosed.exists_isToldBy
  refine ⟨automaton, read, tells, ?_⟩
  intro word
  rw [tells.accepts_eq numberedClosed numberedTotal, isomorphism.accepts_eq closed]
  exact Matcher.accepts_determinize_toNfa

namespace CommandLine

variable {first second operands words : List (List Char)} {pattern : List Char} {tree : Pattern}

/-- The listing is all that a run does in addition if it is asked for it. -/
theorem writesAhead_run
    (splits : splitDump first = (false, operands)) (dumps : splitDump second = (true, operands))
    (input : List UInt8) :
    WritesAhead (announced operands) (run first input) (run second input) := by
  cases operands with
  | nil =>
      rw [run_of_no_operand splits, run_of_no_operand dumps]
      exact ⟨rfl, rfl, rfl, rfl⟩
  | cons pattern words =>
      cases parsed : Pattern.parse pattern with
      | error error =>
          rw [run_of_error splits parsed, run_of_error dumps parsed, announced, parsed]
          exact ⟨rfl, rfl, rfl, rfl⟩
      | ok tree =>
          rw [run_of_ok splits parsed, run_of_ok dumps parsed, announced, parsed]
          constructor
          · rfl
          · simp [decided]
          · rfl
          · rfl

/-- Whatever becomes of the input, the output of a run without the listing is the verdicts. -/
theorem writesVerdicts_run
    (splits : splitDump first = (false, pattern :: words))
    (parsed : Pattern.parse pattern = .ok tree) (input : List UInt8) :
    WritesVerdicts tree.language (if words.isEmpty then (readWords input).1 else words)
      (run first input).out := by
  have read : (if words.isEmpty then (readWords input).1 else words) =
      (wordsRead words input).1 := by
    rw [wordsRead]
    split <;> rfl
  rw [run_of_ok splits parsed, read]
  exact ⟨_, forall₂_verdictLine tree _, rfl⟩

/-- Asked for the listing, a run ends as it would have ended otherwise, with the same reports, and
writes the listing ahead of what it would have written.  If there is a pattern, then the listing is
the text of an automaton that accepts the words of the pattern, and the verdicts are those of this
automaton. -/
theorem run_dump
    {arguments : List (List Char)} (plain : arguments.head? ≠ some "--dump".toList)
    (input : List UInt8) :
    WritesAhead (announced arguments) (run arguments input)
        (run ("--dump".toList :: arguments) input) ∧
      ∀ pattern words tree, arguments = pattern :: words → Pattern.parse pattern = .ok tree →
        ∃ automaton, Dfa.ofListing? (announced arguments) = some automaton ∧
          tree.toNfa.determinize.renumber.IsToldBy automaton ∧
            (∀ word, automaton.accepts word = true ↔ word ∈ tree.language) ∧
              WritesVerdicts {word | automaton.accepts word = true}
                (if words.isEmpty then (readWords input).1 else words)
                (run arguments input).out := by
  have splits : splitDump arguments = (false, arguments) := (Asks.verdicts plain).splitDump_eq
  refine ⟨writesAhead_run splits splitDump_dump input, ?_⟩
  rintro pattern words tree rfl parsed
  obtain ⟨automaton, read, tells, accepts_iff⟩ := tree.exists_automaton_of_listing
  have listing : announced (pattern :: words) = tree.toNfa.determinize.renumber.listing := by
    rw [announced, parsed]
  have language : ({word | automaton.accepts word = true} : Language Char) = tree.language :=
    Set.ext accepts_iff
  refine ⟨automaton, ?_, tells, accepts_iff, ?_⟩
  · rw [listing, read]
  · rw [language]
    exact writesVerdicts_run splits parsed input

/-- A case whose input breaks off after its first line. -/
theorem run_dump_broken :
    let arguments := [['a', '\n', '*']]
    let input : List UInt8 := [97, 97, 10, 255]
    arguments.head? ≠ some "--dump".toList ∧
      (run arguments input).ending = .unreadable ∧
      (run arguments input).out = "aa: accepted\n".toList ∧
      (run ("--dump".toList :: arguments) input).out =
        announced arguments ++ (run arguments input).out ∧
      ∃ automaton, Dfa.ofListing? (announced arguments) = some automaton ∧
        WritesVerdicts {word | automaton.accepts word = true} [['a', 'a']]
          (run arguments input).out := by
  intro arguments input
  have plain : arguments.head? ≠ some "--dump".toList := by decide
  have parsed : Pattern.parse ['a', '\n', '*'] = .ok (.quantified .star (.literal 'a')) :=
    Pattern.parse_eq_onePass _
  have decides : run arguments input = decided ['a', '\n', '*'] (.quantified .star (.literal 'a'))
      [] (readWords input) := run_of_ok (splitDump_of_ne (by decide)) parsed input
  have ending : (run arguments input).ending = .unreadable := by
    rw [decides]
    decide +kernel
  have out : (run arguments input).out = "aa: accepted\n".toList := by
    rw [decides]
    decide +kernel
  obtain ⟨ahead, tells⟩ := run_dump plain input
  obtain ⟨automaton, read, _, _, verdicts⟩ := tells ['a', '\n', '*'] [] _ rfl parsed
  have readable : (readWords input).1 = [['a', 'a']] := by decide +kernel
  rw [List.isEmpty_nil, if_pos rfl, readable] at verdicts
  exact ⟨plain, ending, out, ahead.out_eq, automaton, read, verdicts⟩

end CommandLine

end PatternAutomata
