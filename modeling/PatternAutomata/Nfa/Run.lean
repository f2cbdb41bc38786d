import PatternAutomata.Nfa.Moves

/-!
# Runs

What an automaton accepts, told by its moves alone: a run follows moves and reads the characters on
them, and epsilon moves read nothing.
-/

namespace PatternAutomata.Nfa

variable {S : Type} [Ord S] [Std.TransOrd S]

/-- A chain of epsilon moves leads from the first state to the second. -/
inductive EpsilonReach (nfa : Nfa S) : S → S → Prop where
  | refl (state : S) : EpsilonReach nfa state state
  | step {source middle target : S} :
      nfa.HasMove source .epsilon middle →
      EpsilonReach nfa middle target →
      EpsilonReach nfa source target

/-- Reading the word can lead from the first state to the second. -/
inductive Run (nfa : Nfa S) : S → List Char → S → Prop where
  | stop (state : S) : Run nfa state [] state
  | skip {source middle target : S} {word : List Char} :
      nfa.HasMove source .epsilon middle →
      Run nfa middle word target →
      Run nfa source word target
  | read {source middle target : S} {c : Char} {word : List Char} :
      nfa.HasMove source (.char c) middle →
      Run nfa middle word target →
      Run nfa source (c :: word) target

/-- Reading the word can lead from the start to an accepting state. -/
def Accepts (nfa : Nfa S) (word : List Char) : Prop :=
  ∃ final ∈ nfa.accepting, nfa.Run nfa.start word final

end PatternAutomata.Nfa
