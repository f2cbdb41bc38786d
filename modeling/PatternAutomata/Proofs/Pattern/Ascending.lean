import PatternAutomata.Proofs.Nfa.DeadSubsets
import PatternAutomata.Proofs.Pattern.Construction

/-!
# The automata of patterns lead on

No rule of the construction strands a state.  The numbers show it: whatever the rules join, every
state that does not accept has a move to a greater state, and following such moves ends at a state
that accepts.
-/

namespace PatternAutomata

namespace Nfa

/-- Some move from the state goes to a greater one. -/
def ClimbsFrom (nfa : Nfa Nat) (state : Nat) : Prop :=
  ∃ symbol target, nfa.HasMove state symbol target ∧ state < target

/-- Every state that does not accept has a move to a greater one. -/
def Ascends (nfa : Nfa Nat) : Prop :=
  ∀ state, state ∈ nfa.states → state ∉ nfa.accepting → nfa.ClimbsFrom state

theorem Run.cons_move
    {nfa : Nfa Nat} {source middle target : Nat} {symbol : Symbol} {word : List Char}
    (move : nfa.HasMove source symbol middle) (run : nfa.Run middle word target) :
    nfa.Run source (symbol.char?.toList ++ word) target := by
  cases symbol with
  | char c => exact .read move run
  | epsilon => exact .skip move run

namespace Ascends

variable {nfa inner outer left right : Nfa Nat} {mark : Quantifier} {state offset : Nat}

/-- The room above a state shrinks with every move to a greater one. -/
theorem leadsOn (ascends : nfa.Ascends) (closed : nfa.Closed) : nfa.LeadsOn := by
  intro state member
  induction size : nfa.greatest - state using Nat.strong_induction_on generalizing state with
  | h room ih =>
      by_cases accepting : state ∈ nfa.accepting
      · exact ⟨[], state, .stop state, accepting⟩
      · obtain ⟨symbol, target, move, above⟩ := ascends state member accepting
        have memberTarget := closed.target_mem_of_hasMove move
        have bound := le_greatest memberTarget
        have less : nfa.greatest - target < room := by omega
        obtain ⟨word, final, run, accepts⟩ := ih _ less target memberTarget rfl
        exact ⟨_, final, run.cons_move move, accepts⟩

/-- A part climbs by its own moves, except from its accepting states. -/
theorem climbsFrom
    (ascends : inner.Ascends) (member : state ∈ inner.states)
    (keeps : ∀ symbol target, inner.HasMove state symbol target →
      outer.HasMove state symbol target)
    (exits : state ∈ inner.accepting → outer.ClimbsFrom state) :
    outer.ClimbsFrom state := by
  by_cases accepting : state ∈ inner.accepting
  · exact exits accepting
  · obtain ⟨symbol, target, move, above⟩ := ascends state member accepting
    exact ⟨symbol, target, keeps symbol target move, above⟩

theorem shift (ascends : nfa.Ascends) : (nfa.shift offset).Ascends := by
  intro state member rejecting
  obtain ⟨origin, memberOrigin, rfl⟩ := mem_states_shift.mp member
  have rejectingOrigin : origin ∉ nfa.accepting := fun accepting =>
    rejecting (mem_accepting_shift.mpr ⟨origin, accepting, rfl⟩)
  obtain ⟨symbol, target, move, above⟩ := ascends origin memberOrigin rejectingOrigin
  refine ⟨symbol, target + offset, ?_, Nat.add_lt_add_right above offset⟩
  exact hasMove_shift.mpr ⟨origin, target, move, rfl, rfl⟩

theorem oneOf {characters : List Char} (nonempty : characters ≠ []) :
    (oneOf characters).Ascends := by
  intro state member rejecting
  rw [mem_states_oneOf nonempty] at member
  rw [accepting_oneOf] at rejecting
  obtain ⟨c, among⟩ := List.exists_mem_of_ne_nil characters nonempty
  have zero : state = 0 := member.resolve_right rejecting
  subst zero
  exact ⟨.char c, 1, hasMove_oneOf.mpr ⟨rfl, rfl, c, among, rfl⟩, Nat.zero_lt_one⟩

theorem followedBy
    (ascends : left.Ascends) (behind : right.Ascends) (built : left.Built)
    (rightBuilt : right.Built) :
    (left.followedBy right).Ascends := by
  have closedAbove : (left.above right).Closed := rightBuilt.shift.closed
  intro state member rejecting
  rcases (mem_states_followedBy built rightBuilt).mp member with inFirst | inSecond
  · apply ascends.climbsFrom inFirst
    · intro symbol target move
      exact hasMove_followedBy.mpr (.inl move)
    · intro accepting
      have above := lt_of_mem_above inFirst closedAbove.start_mem
      exact ⟨.epsilon, _, hasMove_followedBy.mpr (.inr (.inr ⟨accepting, rfl, rfl⟩)), above⟩
  · apply behind.shift.climbsFrom inSecond
    · intro symbol target move
      exact hasMove_followedBy.mpr (.inr (.inl move))
    · intro accepting
      exact absurd (mem_accepting_followedBy.mpr accepting) rejecting

theorem either
    (ascends : left.Ascends) (other : right.Ascends) (built : left.Built)
    (rightBuilt : right.Built) :
    (left.either right).Ascends := by
  have closed : (left.shift 1).Closed := built.shift.closed
  have closedAbove : ((left.shift 1).above right).Closed := rightBuilt.shift.closed
  -- The final state is above the right part, which is above the left one.
  have rightBelow : ∀ state, state ∈ ((left.shift 1).above right).states →
      state < finalOfEither left right :=
    fun _ member => lt_greatest_succ member
  have exit : ∀ {state}, state < finalOfEither left right →
      state ∈ (left.shift 1).accepting ∨ state ∈ ((left.shift 1).above right).accepting →
      (left.either right).ClimbsFrom state := by
    intro state below accepting
    exact ⟨.epsilon, _, hasMove_either.mpr (.inr (.inr ⟨rfl, .inr ⟨accepting, rfl⟩⟩)), below⟩
  intro state member rejecting
  rcases (mem_states_either built rightBuilt).mp member with rfl | inLeft | inRight | final
  · refine ⟨.epsilon, (left.shift 1).start, ?_, pos_of_mem_shift closed.start_mem⟩
    exact hasMove_either.mpr (.inr (.inr ⟨rfl, .inl ⟨rfl, .inl rfl⟩⟩))
  · apply ascends.shift.climbsFrom inLeft
    · intro symbol target move
      exact hasMove_either.mpr (.inl move)
    · intro accepting
      have below := lt_of_mem_above inLeft closedAbove.start_mem
      exact exit (below.trans (rightBelow _ closedAbove.start_mem)) (.inl accepting)
  · apply other.shift.climbsFrom inRight
    · intro symbol target move
      exact hasMove_either.mpr (.inr (.inl move))
    · intro accepting
      exact exit (rightBelow state inRight) (.inr accepting)
  · exact absurd (mem_accepting_either.mpr final) rejecting

theorem quantified (ascends : nfa.Ascends) (built : nfa.Built) :
    (nfa.quantified mark).Ascends := by
  have closed : (nfa.shift 1).Closed := built.shift.closed
  intro state member rejecting
  rcases (mem_states_quantified built).mp member with rfl | inside | final
  · refine ⟨.epsilon, (nfa.shift 1).start, ?_, pos_of_mem_shift closed.start_mem⟩
    exact hasMove_quantified.mpr (.inr ⟨rfl, .inl ⟨rfl, .inl rfl⟩⟩)
  · apply ascends.shift.climbsFrom inside
    · intro symbol target move
      exact hasMove_quantified.mpr (.inl move)
    · intro accepting
      refine ⟨.epsilon, (nfa.shift 1).greatest + 1, ?_, lt_greatest_succ inside⟩
      exact hasMove_quantified.mpr (.inr ⟨rfl, .inr ⟨accepting, .inl rfl⟩⟩)
  · exact absurd (mem_accepting_quantified.mpr final) rejecting

end Ascends

end Nfa

namespace Pattern

open Nfa

theorem ascends_toNfa (pattern : Pattern) : pattern.toNfa.Ascends := by
  induction pattern with
  | literal c => exact .oneOf (List.cons_ne_nil c [])
  | charClass cls => exact .oneOf (by cases cls <;> decide)
  | union left right ih ihRight =>
      rw [toNfa_union]
      exact ih.either ihRight left.built_toNfa right.built_toNfa
  | concat left right ih ihRight =>
      rw [toNfa_concat]
      exact ih.followedBy ihRight left.built_toNfa right.built_toNfa
  | quantified mark item ih =>
      rw [toNfa_quantified]
      exact ih.quantified item.built_toNfa

/-- The only dead state of a determinized pattern is the empty subset. -/
theorem onlyEmptyIsDead_toNfa (pattern : Pattern) :
    pattern.toNfa.determinize.OnlyEmptyIsDead := by
  have built := pattern.built_toNfa
  have leadsOn := pattern.ascends_toNfa.leadsOn built.closed
  exact leadsOn.onlyEmptyIsDead_determinize built

end Pattern

end PatternAutomata
