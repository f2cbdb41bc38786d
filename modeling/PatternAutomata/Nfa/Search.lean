import PatternAutomata.Nfa.Closure
import PatternAutomata.Nfa.Moves

/-!
# Searching in any order

The search for an epsilon closure with its order left open.  A pass takes whichever of the stacked
states it likes and stacks what it finds wherever it likes, so a stack that is worked off from its
end, a queue, and the stack of `searchEpsilon` are all cases of it.
-/

namespace PatternAutomata.Nfa

variable {S : Type} [Ord S] [Std.TransOrd S]

/-- A search on its way: the states whose epsilon moves are still to be followed, and all states
found so far. -/
structure Search (S : Type) [Ord S] where
  stack : List S
  found : OrderedSet S

/-- The search that has found its sources. -/
def Search.start (sources : OrderedSet S) : Search S := ⟨sources.toList, sources⟩

/-- One pass of the search: a state leaves the stack, and those targets of its epsilon moves that
had not been found are found and stacked, each of them once. -/
inductive SearchPass (nfa : Nfa S) : Search S → Search S → Prop where
  | take {stack others fresh next : List S} {found : OrderedSet S} (state : S) :
      stack.Perm (state :: others) →
      fresh.Nodup →
      (∀ target, target ∈ fresh ↔ nfa.HasMove state .epsilon target ∧ target ∉ found) →
      next.Perm (fresh ++ others) →
      SearchPass nfa ⟨stack, found⟩ ⟨next, found.insertMany fresh⟩

/-- So many passes lead from the first search to the second. -/
inductive SearchPasses (nfa : Nfa S) : Nat → Search S → Search S → Prop where
  | none (search : Search S) : SearchPasses nfa 0 search search
  | more {count : Nat} {first second last : Search S} :
      nfa.SearchPass first second →
      SearchPasses nfa count second last →
      SearchPasses nfa (count + 1) first last

end PatternAutomata.Nfa
