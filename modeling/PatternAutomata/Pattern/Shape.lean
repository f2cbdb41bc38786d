import PatternAutomata.Nfa.Moves
import PatternAutomata.Pattern

/-!
# The shape of the automata of patterns

How many states a pattern needs and which characters it mentions, and the few forms that the rows
of moves of its automaton take.
-/

namespace PatternAutomata

namespace Pattern

/-- The number of nodes that need two states of their own: all but the concatenations. -/
def placedNodes : Pattern → Nat
  | .literal _ | .charClass _ => 1
  | .union left right => left.placedNodes + right.placedNodes + 1
  | .concat left right => left.placedNodes + right.placedNodes
  | .quantified _ item => item.placedNodes + 1

/-- Whether the character is a literal of the pattern or belongs to one of its classes. -/
def mentions (c : Char) : Pattern → Bool
  | .literal d => c == d
  | .charClass cls => cls.contains c
  | .union left right | .concat left right => left.mentions c || right.mentions c
  | .quantified _ item => item.mentions c

end Pattern

namespace Nfa

/-- The row has moves on characters only, and all of them lead to the one given state. -/
def Row.ReadsTo (row : Row Nat) (target : Nat) : Prop :=
  row ≠ ∅ ∧ ∀ (symbol : Symbol) (targets : OrderedSet Nat), row[symbol]? = some targets →
    symbol.isEpsilon = false ∧ targets = {target}

/-- The row has epsilon moves only, and one or two of them. -/
def Row.Skips (row : Row Nat) : Prop :=
  ∃ targets : OrderedSet Nat, (targets.size = 1 ∨ targets.size = 2) ∧
    ∀ symbol : Symbol, row[symbol]? = if symbol.isEpsilon then some targets else none

/-- The automaton has the given number of states, numbered from its start to its only accepting
state; no move enters the start or leaves the accepting state, and every other state either reads
on the way to the next state or skips to one or two states. -/
structure Shaped (nfa : Nfa Nat) (count : Nat) : Prop where
  mem_states : ∀ state, state ∈ nfa.states ↔ state < count
  start_eq : nfa.start = 0
  accepting_eq : nfa.accepting = {count - 1}
  not_entered : ∀ source symbol, ¬nfa.HasMove source symbol 0
  not_left : nfa.rows[count - 1]? = none
  row : ∀ state, state + 1 < count →
    ∃ row, nfa.rows[state]? = some row ∧ (row.ReadsTo (state + 1) ∨ row.Skips)

end Nfa

end PatternAutomata
