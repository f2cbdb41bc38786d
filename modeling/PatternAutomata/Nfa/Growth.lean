import Mathlib.Data.Set.Insert
import PatternAutomata.Nfa.Moves

/-!
# Growing an automaton

An automaton grows from a single state by additions, one after the other; to add an automaton is to
add what has grown in the same way from a state of its own.

What an automaton consists of is told apart from its rows, as sets of characters, states, accepting
states and moves.  What a list of additions contributes to these sets is the join of what each of
them contributes, whatever their order.
-/

namespace PatternAutomata.Nfa

/-- Something that can be added to an automaton. -/
inductive Addition (S : Type) where
  /-- a state -/
  | state (state : S)
  /-- a move, with its two states and its character -/
  | move (source : S) (symbol : Symbol) (target : S)
  /-- an accepting state -/
  | accepting (state : S)
  /-- the automaton that grows from the state by the additions -/
  | automaton (start : S) (additions : List (Addition S))

section Grow

variable {S : Type} [Ord S] [Std.TransOrd S]

mutual

/-- Adds something to an automaton. -/
def add (nfa : Nfa S) : Addition S → Nfa S
  | .state state => nfa.addState state
  | .move source symbol target => nfa.addMove source symbol target
  | .accepting state => nfa.markAccepting state
  | .automaton start additions => nfa.absorb (addAll (singleton start) additions)

/-- Adds one thing after the other to an automaton. -/
def addAll (nfa : Nfa S) : List (Addition S) → Nfa S
  | [] => nfa
  | addition :: additions => addAll (add nfa addition) additions

end

/-- The automaton that grows from the state by the additions. -/
def grow (start : S) (additions : List (Addition S)) : Nfa S := (singleton start).addAll additions

end Grow

/-- The characters, states, accepting states and moves of an automaton. -/
@[ext]
structure Contents (S : Type) where
  chars : Set Char
  states : Set S
  accepting : Set S
  moves : Set (S × Symbol × S)

namespace Contents

variable {S : Type}

instance : PartialOrder (Contents S) where
  le first second := first.chars ⊆ second.chars ∧ first.states ⊆ second.states ∧
    first.accepting ⊆ second.accepting ∧ first.moves ⊆ second.moves
  le_refl _ := ⟨Set.Subset.rfl, Set.Subset.rfl, Set.Subset.rfl, Set.Subset.rfl⟩
  le_trans _ _ _ below above := ⟨below.1.trans above.1, below.2.1.trans above.2.1,
    below.2.2.1.trans above.2.2.1, below.2.2.2.trans above.2.2.2⟩
  le_antisymm _ _ below above := Contents.ext (below.1.antisymm above.1)
    (below.2.1.antisymm above.2.1) (below.2.2.1.antisymm above.2.2.1)
    (below.2.2.2.antisymm above.2.2.2)

/-- The join of two contents has what one of them has. -/
instance : SemilatticeSup (Contents S) where
  sup first second := ⟨first.chars ∪ second.chars, first.states ∪ second.states,
    first.accepting ∪ second.accepting, first.moves ∪ second.moves⟩
  le_sup_left _ _ := ⟨Set.subset_union_left, Set.subset_union_left, Set.subset_union_left,
    Set.subset_union_left⟩
  le_sup_right _ _ := ⟨Set.subset_union_right, Set.subset_union_right, Set.subset_union_right,
    Set.subset_union_right⟩
  sup_le _ _ _ first second := ⟨Set.union_subset first.1 second.1,
    Set.union_subset first.2.1 second.2.1, Set.union_subset first.2.2.1 second.2.2.1,
    Set.union_subset first.2.2.2 second.2.2.2⟩

instance : OrderBot (Contents S) where
  bot := ⟨∅, ∅, ∅, ∅⟩
  bot_le _ := ⟨Set.empty_subset _, Set.empty_subset _, Set.empty_subset _, Set.empty_subset _⟩

/-- The contents of a single state. -/
def ofState (state : S) : Contents S where
  chars := ∅
  states := {state}
  accepting := ∅
  moves := ∅

/-- The contents of a move: itself, its two states and its character. -/
def ofMove (source : S) (symbol : Symbol) (target : S) : Contents S where
  chars := {c | symbol = .char c}
  states := {source, target}
  accepting := ∅
  moves := {(source, symbol, target)}

end Contents

section Contributions

variable {S : Type}

mutual

/-- What something contributes where it is added: all it consists of, except that the accepting
states of an automaton do not accept there. -/
def Addition.contribution : Addition S → Contents S
  | .state added => .ofState added
  | .move source symbol target => .ofMove source symbol target
  | .accepting added => { Contents.ofState added with accepting := {added} }
  | .automaton start additions =>
    { Contents.ofState start ⊔ Addition.contributions additions with accepting := ∅ }

/-- What the additions contribute together. -/
def Addition.contributions : List (Addition S) → Contents S
  | [] => ⊥
  | addition :: additions => addition.contribution ⊔ Addition.contributions additions

end

/-- What is contributed to the automaton that grows from the state by the additions. -/
def contributed (start : S) (additions : List (Addition S)) : Contents S :=
  .ofState start ⊔ Addition.contributions additions

end Contributions

/-- The contents of an automaton. -/
def contents {S : Type} [Ord S] [Std.TransOrd S] (nfa : Nfa S) : Contents S where
  chars := {c | c ∈ nfa.alphabet}
  states := {state | state ∈ nfa.states}
  accepting := {state | state ∈ nfa.accepting}
  moves := {move | nfa.HasMove move.1 move.2.1 move.2.2}

end PatternAutomata.Nfa
