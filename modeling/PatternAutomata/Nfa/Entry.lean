import PatternAutomata.Nfa.Listing
import PatternAutomata.Text.Entry

/-!
# What the text of an automaton with epsilon moves says

The text of an automaton has an entry for each state.  It writes a symbol as a single character, and
the one that it writes for epsilon is a character like any other.
-/

namespace PatternAutomata.Nfa

/-- The moves in the lines of a row. -/
def Row.written (row : Row Nat) : List (Char × List Nat) :=
  row.toList.map fun (symbol, targets) => (symbol.glyph, targets.toList)

/-- What the text of the automaton says of a state. -/
def entry (nfa : Nfa Nat) (state : Nat) : Text.Entry where
  isStart := state == nfa.start
  accepting := nfa.isAccepting state
  state := state
  moves := (nfa.rows.getD state ∅).written

/-- The state has the same moves in both automata. -/
def SameMoves (source : Nat) (first second : Nfa Nat) : Prop :=
  ∀ symbol, first.targets? source symbol = second.targets? source symbol

/-- In place of the moves on epsilon that the state has in the second automaton, it has moves on the
character for epsilon in the first.  All its other moves are the same, and none of them is on a
character that comes after that one. -/
structure TakesGlyphForEpsilon (source : Nat) (first second : Nfa Nat) : Prop where
  targets?_char : first.targets? source (.char 'ε') = second.targets? source .epsilon
  targets?_epsilon : first.targets? source .epsilon = none
  other_targets?_char : second.targets? source (.char 'ε') = none
  targets?_eq : ∀ c, c ≠ 'ε' → first.targets? source (.char c) = second.targets? source (.char c)
  targets?_of_lt : ∀ c, 'ε' < c → first.targets? source (.char c) = none

end PatternAutomata.Nfa
