import PatternAutomata.Nfa
import PatternAutomata.Text.Listing

/-!
# The text of an automaton with epsilon moves

States come in ascending order, and the moves of a state in the order of their symbols.
-/

namespace PatternAutomata.Nfa

/-- The lines of a state: its own, then one for each symbol of its row. -/
def stateListing (nfa : Nfa Nat) (state : Nat) : List Char :=
  Text.stateLine (state == nfa.start) (nfa.isAccepting state) state ++
    (nfa.rows.getD state ∅).toList.flatMap fun (symbol, targets) =>
      Text.moveLine symbol.glyph targets.toList

/-- The text of the automaton. -/
def listing (nfa : Nfa Nat) : List Char :=
  nfa.states.toList.flatMap nfa.stateListing

end PatternAutomata.Nfa
