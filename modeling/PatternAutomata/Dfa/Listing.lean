import PatternAutomata.Dfa
import PatternAutomata.Text.Listing

/-!
# The text of a deterministic automaton

States come in ascending order, and the moves of a state in the order of their characters.
-/

namespace PatternAutomata.Dfa

/-- The lines of a state: its own, then one for each character of its row. -/
def stateListing (dfa : Dfa Nat) (state : Nat) : List Char :=
  Text.stateLine (state == dfa.start) (dfa.isAccepting state) state ++
    (dfa.rows.getD state ∅).toList.flatMap fun (c, target) => Text.moveLine c [target]

def listing (dfa : Dfa Nat) : List Char :=
  dfa.states.toList.flatMap dfa.stateListing

end PatternAutomata.Dfa
