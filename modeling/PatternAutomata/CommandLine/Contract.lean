import PatternAutomata.CommandLine
import PatternAutomata.Pattern.Denotation
import PatternAutomata.Pattern.Language
import PatternAutomata.Text.Encoding

/-!
# What a run owes

What a run of the command line has to write and how it has to end, told from its operands, from the
text of its input and from the language of the pattern.  It knows neither automata nor bytes; only
the listing that may come first is that of the automaton.
-/

namespace PatternAutomata.CommandLine

/-- Whether the arguments ask for a listing, and the operands that they hold. -/
inductive Asks : List (List Char) → Bool → List (List Char) → Prop where
  | listing (operands : List (List Char)) : Asks ("--dump".toList :: operands) true operands
  | verdicts {operands : List (List Char)} :
      operands.head? ≠ some "--dump".toList →
      Asks operands false operands

/-- The line says whether the word belongs to the language. -/
inductive SaysVerdict (language : Language Char) (word : List Char) : List Char → Prop where
  | accepted : word ∈ language → SaysVerdict language word (word ++ ": accepted\n".toList)
  | rejected : word ∉ language → SaysVerdict language word (word ++ ": rejected\n".toList)

/-- The outcomes differ in what has been logged at most. -/
structure SameResult (first second : Outcome) : Prop where
  ending_eq : first.ending = second.ending
  out_eq : first.out = second.out
  err_eq : first.err = second.err

/-- The run has ended without a word, and with the report as its only trace. -/
structure Refuses (report : List Char) (outcome : Outcome) : Prop where
  ending_eq : outcome.ending = .refused
  exitCode_eq : outcome.ending.exitCode = 1
  out_eq : outcome.out = []
  err_eq : outcome.err = report

/-- The run has written the listing and then one verdict for each of the words, in their order. -/
structure Decides (language : Language Char) (listing : List Char) (words : List (List Char))
    (outcome : Outcome) : Prop where
  out_eq : ∃ verdicts, List.Forall₂ (SaysVerdict language) words verdicts ∧
    outcome.out = listing ++ verdicts.flatten
  err_eq : outcome.err = []
  exitCode_eq_zero_iff : outcome.ending.exitCode = 0 ↔ ∀ word ∈ words, word ∈ language
  exitCode_eq_two_iff : outcome.ending.exitCode = 2 ↔ ∃ word ∈ words, word ∉ language

/-- The operands are a pattern that can be parsed, and no words. -/
def ReadsLines (operands : List (List Char)) : Prop :=
  ∃ pattern tree, operands = [pattern] ∧ Pattern.parse pattern = .ok tree

/-- The run has stopped at a line that is no text: it has left behind what the run on the lines before
that line leaves behind, but has come to no verdict on the words together. -/
structure StopsAfter (reached outcome : Outcome) : Prop where
  ending_eq : outcome.ending = .unreadable
  out_eq : outcome.out = reached.out
  err_eq : outcome.err = []
  log_eq : outcome.log = reached.log
  reached_ending_ne : reached.ending ≠ .unreadable

/-- The listing that belongs to the operands: that of the automaton of the pattern, if they hold one
that can be parsed. -/
def announced : List (List Char) → List Char
  | [] => []
  | pattern :: _ =>
    match Pattern.parse pattern with
    | .error _ => []
    | .ok tree => tree.toNfa.determinize.renumber.listing

/-- The second outcome is the first with the text written ahead. -/
structure WritesAhead (text : List Char) (first second : Outcome) : Prop where
  ending_eq : second.ending = first.ending
  out_eq : second.out = text ++ first.out
  err_eq : second.err = first.err
  log_eq : second.log = first.log

/-- The text is one verdict for each of the words, in their order. -/
def WritesVerdicts (language : Language Char) (words : List (List Char)) (text : List Char) : Prop :=
  ∃ verdicts, List.Forall₂ (SaysVerdict language) words verdicts ∧ text = verdicts.flatten

/-- The lines of the input up to the first that is no text, and whether all of them are. -/
def readWords (input : List UInt8) : List (List Char) × Bool :=
  let decoded := (Text.lines input).map Text.decode?
  ((decoded.takeWhile Option.isSome).filterMap id, decoded.all Option.isSome)

/-- The error on a line of its own, the pattern, and a caret after the blanks. -/
def caretReport (error : SyntaxError) (pattern blanks : List Char) : List Char :=
  ("Error: " ++ error.message).toList ++ '\n' :: (pattern ++ '\n' :: (blanks ++ ['^', '\n']))

/-- The position lies in the line of the pattern that begins after the earlier ones, and the column is
what precedes it there. -/
structure LiesAfter (pattern : List Char) (position : Nat) (earlier column after : List Char) :
    Prop where
  pattern_eq : pattern = earlier ++ column ++ after
  position_eq : position = (earlier ++ column).length
  line_begins : earlier = [] ∨ earlier.getLast? = some '\n'
  not_mem_column : '\n' ∉ column

/-- The outcome is right for the operands and the text of the input. -/
def Obeys (wantsListing : Bool) (text : List Char) (operands : List (List Char))
    (outcome : Outcome) : Prop :=
  match operands with
  | [] => Refuses usage.toList outcome
  | pattern :: words =>
    match Pattern.parse pattern with
    | .error error => Refuses (errorReport error pattern) outcome
    | .ok tree =>
      Pattern.Denotes .alternatives pattern tree.language ∧
        Decides tree.language
          (if wantsListing then tree.toNfa.determinize.renumber.listing else [])
          (if words.isEmpty then Text.textLines text else words) outcome

end PatternAutomata.CommandLine
