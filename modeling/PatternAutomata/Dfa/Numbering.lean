import PatternAutomata.Dfa

/-!
# Numbered states

Deterministic automata that are the same up to the names of their states, and when an automaton over
numbers is another one with every state named by its number.  The number of a state is its place in
the listing of the states.
-/

namespace PatternAutomata.Dfa

variable {S T : Type} [Ord S] [Std.TransOrd S] [Ord T] [Std.TransOrd T]

/-- The number of a state: its place in the listing of the states. -/
def number (dfa : Dfa S) (state : S) : Nat :=
  dfa.numbering.getD state dfa.states.size

/-- The function takes the states of the first automaton to those of the second, all of them and in
order, and what belongs to a state of the first belongs to its image in the second: the start, the
accepting states, and for every character its move or the lack of one. -/
structure OrderIsomorphism (f : S → T) (first : Dfa S) (second : Dfa T) : Prop where
  alphabet_eq : second.alphabet = first.alphabet
  missing_eq : second.missing = first.missing
  mem_states_iff : ∀ name, name ∈ second.states ↔ ∃ state, state ∈ first.states ∧ f state = name
  increasing : OrderedSet.IncreasingOn f first.states
  start_eq : second.start = f first.start
  target?_eq : ∀ state c, state ∈ first.states →
    second.target? (f state) c = (first.target? state c).map f
  mem_accepting_iff : ∀ name,
    name ∈ second.accepting ↔ ∃ state, state ∈ first.accepting ∧ f state = name

/-- The second automaton is the first with every state named by its number, which is how many states
are smaller.  It accepts the same words, and it is what numbering gives again, for itself and for
every automaton that renames the first in order. -/
structure IsNumberedIn (dfa : Dfa S) (numbered : Dfa Nat) : Prop where
  number_eq : ∀ state, state ∈ dfa.states →
    dfa.number state = (dfa.states.toList.filter (compare · state = .lt)).length
  mem_states_iff : ∀ number, number ∈ numbered.states ↔ number < dfa.states.size
  isomorphism : OrderIsomorphism dfa.number dfa numbered
  accepts_eq : ∀ missing word,
    (numbered.withMissing missing).accepts word = (dfa.withMissing missing).accepts word
  renumber_eq : numbered.renumber = numbered
  renumber_relabel_eq : ∀ {T : Type} [Ord T] [Std.TransOrd T] [Std.LawfulEqOrd T] (f : S → T),
    OrderedSet.IncreasingOn f dfa.states → (dfa.relabel f).renumber = numbered

end PatternAutomata.Dfa
