import PatternAutomata.Proofs.Nfa.Determinization
import PatternAutomata.Proofs.Pattern.Construction

/-!
# What is built stays closed

The operations may come in any order, and a renaming may merge states, so that one row replaces
another.  Still no automaton ever mentions a state or a character that it does not have, and none
keeps an empty row.  The automata of patterns and of subsets are built by the operations too.
-/

namespace PatternAutomata

/-- Every automaton that the operations build is closed, with epsilon moves or deterministic and
over whatever states; so are the automata of all patterns, and the deterministic ones of all
automata. -/
theorem closed_of_building :
    (∀ (S : Type) [Ord S] [Std.TransOrd S] (nfa : Nfa S), nfa.Built → nfa.Closed) ∧
      (∀ (S : Type) [Ord S] [Std.TransOrd S] (dfa : Dfa S), dfa.Built → dfa.Closed) ∧
        (∀ pattern : Pattern, pattern.toNfa.Closed) ∧
          ∀ (S : Type) [Ord S] [Std.TransOrd S] [Std.LawfulEqOrd S] (nfa : Nfa S),
            nfa.determinize.Closed := by
  refine ⟨?_, ?_, ?_, ?_⟩
  · intro S _ _ nfa built
    exact built.closed
  · intro S _ _ dfa built
    exact built.closed
  · intro pattern
    exact pattern.built_toNfa.closed
  · intro S _ _ _ nfa
    exact nfa.built_determinize.closed

/-- A case in which a renaming merges two sources of moves, and the automaton absorbs itself. -/
theorem closed_of_building_merged :
    let parts := ((Nfa.singleton 0).addMove 0 (.char 'a') 1).addMove 2 .epsilon 3
    let nfa := (parts.relabel (· % 2)).absorb (parts.relabel (· % 2))
    let dfa := ((Dfa.singleton ∅ 0).setMove 0 'a' 1).setMove 2 'b' 3
    nfa.Built ∧ nfa.Closed ∧ (dfa.relabel (· % 2)).renumber.Built ∧
      (dfa.relabel (· % 2)).renumber.Closed := by
  intro parts nfa dfa
  have builtParts : parts.Built :=
    .addMove 2 .epsilon 3 (.addMove 0 (.char 'a') 1 (.singleton 0))
  have builtNfa : nfa.Built :=
    .absorb (.relabel (· % 2) builtParts) (.relabel (· % 2) builtParts)
  have builtDfa : (dfa.relabel (· % 2)).renumber.Built :=
    .renumber (.relabel (· % 2) (.setMove 2 'b' 3 (.setMove 0 'a' 1 (.singleton ∅ 0))))
  exact ⟨builtNfa, closed_of_building.1 Nat nfa builtNfa, builtDfa,
    closed_of_building.2.1 Nat _ builtDfa⟩

end PatternAutomata
