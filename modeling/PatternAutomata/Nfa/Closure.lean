import PatternAutomata.Nfa

/-!
# Epsilon closures

What an automaton reaches without reading.  The search keeps a stack of states whose epsilon moves
are still to be followed and the set of all states found so far; a state is stacked when it is
found for the first time, so no state is stacked twice.
-/

namespace PatternAutomata.Nfa

variable {S : Type} [Ord S] [Std.TransOrd S]

/-- Follows the epsilon moves of the stacked states, for at most `fuel` states. -/
def searchEpsilon (nfa : Nfa S) : Nat → List S → OrderedSet S → OrderedSet S
  | 0, _, found => found
  | _, [], found => found
  | fuel + 1, state :: stack, found =>
    let fresh := (nfa.targets state .epsilon).toList.filter fun target => !found.contains target
    searchEpsilon nfa fuel (fresh ++ stack) (found.insertMany fresh)

/-- The states reachable from the sources by epsilon moves alone, the sources included.  Every
stacked state is a source or a state of the automaton, which bounds the search. -/
def closureOf (nfa : Nfa S) (sources : OrderedSet S) : OrderedSet S :=
  nfa.searchEpsilon (nfa.states.size + sources.size) sources.toList sources

/-- The states reachable from one state by epsilon moves alone, the state included. -/
def closure (nfa : Nfa S) (state : S) : OrderedSet S :=
  nfa.closureOf {state}

/-- The states reachable from a subset by reading a character and then following epsilon moves. -/
def step (nfa : Nfa S) (subset : OrderedSet S) (c : Char) : OrderedSet S :=
  nfa.closureOf (OrderedSet.unionMap (nfa.targets · (.char c)) subset)

end PatternAutomata.Nfa
