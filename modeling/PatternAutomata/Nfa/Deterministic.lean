import PatternAutomata.Dfa
import PatternAutomata.Nfa.Moves

/-!
# Automata without a choice

An automaton without epsilon moves that has at most one target for a state and a character is never
in two states at once.  Its subsets hold the one state that it is in, or none once a move has been
missing; so determinizing it keeps the part of it that can be reached.
-/

namespace PatternAutomata.Nfa

variable {S : Type} [Ord S] [Std.TransOrd S]

/-- The automaton moves on characters only, and never has two targets to choose from. -/
structure Deterministic (nfa : Nfa S) : Prop where
  no_epsilon : ∀ source target, ¬nfa.HasMove source .epsilon target
  target_unique : ∀ source c target other,
    nfa.HasMove source (.char c) target → nfa.HasMove source (.char c) other → target = other

/-- Moves lead from the start to the state. -/
inductive Reached (nfa : Nfa S) : S → Prop where
  | start : nfa.Reached nfa.start
  | move {source target : S} {symbol : Symbol} :
      nfa.Reached source → nfa.HasMove source symbol target → nfa.Reached target

/-- No move on the character leads on from the state. -/
def Lacks (nfa : Nfa S) (state : S) (c : Char) : Prop :=
  ∀ target, ¬nfa.HasMove state (.char c) target

/-- Somewhere that the automaton can come, some character of the alphabet leads nowhere. -/
def CanGetStuck (nfa : Nfa S) : Prop :=
  ∃ state c, nfa.Reached state ∧ c ∈ nfa.alphabet ∧ nfa.Lacks state c

/-- The deterministic automaton is the part of the given one that can be reached, with singletons
for its states and the empty set for the place where missing moves lead. -/
structure IsKeptIn (nfa : Nfa S) (dfa : Dfa (OrderedSet S)) : Prop where
  alphabet_eq : dfa.alphabet = nfa.alphabet
  start_eq : dfa.start = {nfa.start}
  mem_states_iff : ∀ subset, subset ∈ dfa.states ↔
    (∃ state, nfa.Reached state ∧ subset = {state}) ∨ subset = ∅ ∧ nfa.CanGetStuck
  target?_of_move : ∀ source c target, nfa.Reached source → nfa.HasMove source (.char c) target →
    dfa.target? {source} c = some {target}
  target?_of_lacks : ∀ source c, nfa.Reached source → c ∈ nfa.alphabet → nfa.Lacks source c →
    dfa.target? {source} c = some ∅
  target?_empty : ∀ c, nfa.CanGetStuck → c ∈ nfa.alphabet → dfa.target? ∅ c = some ∅
  isAccepting_singleton : ∀ state, nfa.Reached state →
    (dfa.isAccepting {state} = true ↔ state ∈ nfa.accepting)
  not_isAccepting_empty : dfa.isAccepting ∅ = false
  size_eq : ∃ reached : OrderedSet S, (∀ state, state ∈ reached ↔ nfa.Reached state) ∧
    (¬nfa.CanGetStuck → dfa.states.size = reached.size) ∧
    (nfa.CanGetStuck → dfa.states.size = reached.size + 1)

end PatternAutomata.Nfa
