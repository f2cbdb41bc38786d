import PatternAutomata.Dfa
import PatternAutomata.Nfa.Moves

/-!
# Renaming in several steps

When renaming the states is renaming them step by step, and what stays where states are merged: of
all states that get one name, the greatest that has moves keeps them, and the others lose theirs.
-/

namespace PatternAutomata

variable {S : Type} [Ord S] [Std.TransOrd S]

namespace Nfa

/-- Some move leads on from the state. -/
def HasMoves (nfa : Nfa S) (source : S) : Prop :=
  ∃ symbol target, nfa.HasMove source symbol target

/-- How renamings of the automaton compose: two of them are one if no two states get the same name
in the end, or if the first of them does not reverse states. -/
structure RelabelingsCompose (nfa : Nfa S) : Prop where
  hasMove_relabel : ∀ {T : Type} [Ord T] [Std.TransOrd T] [Std.LawfulEqOrd T] (f : S → T)
    (name : T) (symbol : Symbol) (goal : T),
    (nfa.relabel f).HasMove name symbol goal ↔
      ∃ source target, OrderedMap.Prevails f nfa.HasMoves name source ∧
        nfa.HasMove source symbol target ∧ f target = goal
  of_injectiveOn : ∀ {T U : Type} [Ord T] [Std.TransOrd T] [Std.LawfulEqOrd T]
    [Ord U] [Std.TransOrd U] [Std.LawfulEqOrd U] (f : S → T) (g : T → U),
    OrderedSet.InjectiveOn (g ∘ f) nfa.states →
      (nfa.relabel f).relabel g = nfa.relabel (g ∘ f)
  of_nonDecreasingOn : ∀ {T U : Type} [Ord T] [Std.TransOrd T] [Std.LawfulEqOrd T]
    [Ord U] [Std.TransOrd U] [Std.LawfulEqOrd U] (f : S → T) (g : T → U),
    OrderedSet.NonDecreasingOn f nfa.states →
      (nfa.relabel f).relabel g = nfa.relabel (g ∘ f)
  of_inverse : ∀ {T : Type} [Ord T] [Std.TransOrd T] [Std.LawfulEqOrd T] (f : S → T) (g : T → S),
    (∀ state, state ∈ nfa.states → g (f state) = state) → (nfa.relabel f).relabel g = nfa

end Nfa

namespace Dfa

/-- Some move leads on from the state. -/
def HasMoves (dfa : Dfa S) (source : S) : Prop :=
  ∃ c target, dfa.target? source c = some target

/-- How renamings of the automaton compose: two of them are one if no two states get the same name
in the end, or if the first of them does not reverse states. -/
structure RelabelingsCompose (dfa : Dfa S) : Prop where
  target?_relabel : ∀ {T : Type} [Ord T] [Std.TransOrd T] [Std.LawfulEqOrd T] (f : S → T)
    (name : T) (c : Char) (goal : T),
    (dfa.relabel f).target? name c = some goal ↔
      ∃ source target, OrderedMap.Prevails f dfa.HasMoves name source ∧
        dfa.target? source c = some target ∧ f target = goal
  of_injectiveOn : ∀ {T U : Type} [Ord T] [Std.TransOrd T] [Std.LawfulEqOrd T]
    [Ord U] [Std.TransOrd U] [Std.LawfulEqOrd U] (f : S → T) (g : T → U),
    OrderedSet.InjectiveOn (g ∘ f) dfa.states →
      (dfa.relabel f).relabel g = dfa.relabel (g ∘ f)
  of_nonDecreasingOn : ∀ {T U : Type} [Ord T] [Std.TransOrd T] [Std.LawfulEqOrd T]
    [Ord U] [Std.TransOrd U] [Std.LawfulEqOrd U] (f : S → T) (g : T → U),
    OrderedSet.NonDecreasingOn f dfa.states →
      (dfa.relabel f).relabel g = dfa.relabel (g ∘ f)
  of_inverse : ∀ {T : Type} [Ord T] [Std.TransOrd T] [Std.LawfulEqOrd T] (f : S → T) (g : T → S),
    (∀ state, state ∈ dfa.states → g (f state) = state) → (dfa.relabel f).relabel g = dfa

end Dfa

end PatternAutomata
