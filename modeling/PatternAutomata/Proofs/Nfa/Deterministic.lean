import PatternAutomata.Nfa.Deterministic
import PatternAutomata.Proofs.Nfa.Determinization
import PatternAutomata.Proofs.Ordered.Images

/-!
# Determinizing an automaton without a choice

A step from a singleton is a singleton again, or empty if the state has no move; so the survey of an
automaton without a choice discovers singletons, and the empty set at most beside them.  The numbers
of states are compared through the union of the subsets, which holds what can be reached.
-/

namespace PatternAutomata.Nfa

variable {S : Type} [Ord S] [Std.TransOrd S] [Std.LawfulEqOrd S]
  {nfa : Nfa S} {source target : S} {c : Char} {subset : OrderedSet S}

/-- What the discovered subsets hold together. -/
def reachedStates (nfa : Nfa S) : OrderedSet S := OrderedSet.unionMap id nfa.determinize.states

/-- A subset of its own for everything that the discovered subsets hold. -/
def singletons (nfa : Nfa S) : OrderedSet (OrderedSet S) :=
  OrderedSet.image (fun state => {state}) nfa.reachedStates

namespace Deterministic

variable (deterministic : nfa.Deterministic) (closed : nfa.Closed)

include deterministic

omit [Std.LawfulEqOrd S] in
theorem epsilonReach_iff : nfa.EpsilonReach source target ↔ source = target := by
  constructor
  · intro reach
    cases reach with
    | refl => rfl
    | step move _ => exact absurd move (deterministic.no_epsilon _ _)
  · intro same
    subst same
    exact .refl source

include closed

theorem startSubset_eq : nfa.startSubset = {nfa.start} := by
  apply Std.ExtTreeSet.ext_mem
  intro state
  apply (mem_closure closed).trans
  rw [deterministic.epsilonReach_iff, OrderedSet.mem_singleton, eq_comm]

theorem mem_step_singleton :
    target ∈ nfa.step {source} c ↔ nfa.HasMove source (.char c) target := by
  rw [mem_step closed]
  simp only [OrderedSet.mem_singleton, deterministic.epsilonReach_iff, exists_and_left,
    exists_eq_left, exists_eq_right]

theorem step_of_move (move : nfa.HasMove source (.char c) target) :
    nfa.step {source} c = {target} := by
  apply Std.ExtTreeSet.ext_mem
  intro other
  rw [deterministic.mem_step_singleton closed, OrderedSet.mem_singleton]
  constructor
  · intro otherMove
    exact deterministic.target_unique source c other target otherMove move
  · intro same
    exact same ▸ move

theorem step_of_lacks (lacks : nfa.Lacks source c) : nfa.step {source} c = ∅ := by
  rw [Std.ExtTreeSet.eq_empty_iff_forall_not_mem]
  intro target member
  exact lacks target ((deterministic.mem_step_singleton closed).mp member)

/-- A step from a state that is reached leads to such a state, or nowhere. -/
theorem step_cases (reached : nfa.Reached source) (char : c ∈ nfa.alphabet) :
    (∃ target, nfa.Reached target ∧ nfa.step {source} c = {target}) ∨
      nfa.step {source} c = ∅ ∧ nfa.CanGetStuck := by
  by_cases moves : ∃ target, nfa.HasMove source (.char c) target
  · obtain ⟨target, move⟩ := moves
    exact .inl ⟨target, reached.move move, deterministic.step_of_move closed move⟩
  · have lacks : nfa.Lacks source c := not_exists.mp moves
    exact .inr ⟨deterministic.step_of_lacks closed lacks, source, c, reached, char, lacks⟩

/-- A word leads to a state that is reached, or nowhere. -/
theorem subsetAfter_cases {word : List Char} (spellable : ∀ c ∈ word, c ∈ nfa.alphabet) :
    (∃ state, nfa.Reached state ∧ nfa.subsetAfter word = {state}) ∨
      nfa.subsetAfter word = ∅ ∧ nfa.CanGetStuck := by
  induction word using List.reverseRecOn with
  | nil => exact .inl ⟨nfa.start, .start, deterministic.startSubset_eq closed⟩
  | append_singleton word c ih =>
      have char : c ∈ nfa.alphabet := spellable c (by simp)
      rw [subsetAfter_concat]
      rcases ih fun d member => spellable d (List.mem_append_left _ member) with
        ⟨state, reached, same⟩ | ⟨empty, stuck⟩
      · rw [same]
        exact deterministic.step_cases closed reached char
      · rw [empty]
        exact .inr ⟨step_empty closed c, stuck⟩

theorem singleton_mem_discoveries (reached : nfa.Reached source) :
    {source} ∈ nfa.discoveries := by
  induction reached with
  | start =>
      rw [← deterministic.startSubset_eq closed]
      exact startSubset_mem_discoveries closed
  | @move source target symbol _ move ih =>
      cases symbol with
      | epsilon => exact absurd move (deterministic.no_epsilon source target)
      | char c =>
          rw [← deterministic.step_of_move closed move]
          exact step_mem_discoveries closed ih (closed.char_mem_of_hasMove move)

theorem empty_mem_discoveries (stuck : nfa.CanGetStuck) : ∅ ∈ nfa.discoveries := by
  obtain ⟨state, c, reached, char, lacks⟩ := stuck
  rw [← deterministic.step_of_lacks closed lacks]
  exact step_mem_discoveries closed (deterministic.singleton_mem_discoveries closed reached) char

theorem mem_discoveries_iff :
    subset ∈ nfa.discoveries ↔
      (∃ state, nfa.Reached state ∧ subset = {state}) ∨ subset = ∅ ∧ nfa.CanGetStuck := by
  constructor
  · intro discovered
    obtain ⟨word, spellable, rfl⟩ := (mem_discoveries closed).mp discovered
    exact deterministic.subsetAfter_cases closed spellable
  · rintro (⟨state, reached, rfl⟩ | ⟨rfl, stuck⟩)
    · exact deterministic.singleton_mem_discoveries closed reached
    · exact deterministic.empty_mem_discoveries closed stuck

theorem mem_states_determinize_iff :
    subset ∈ nfa.determinize.states ↔
      (∃ state, nfa.Reached state ∧ subset = {state}) ∨ subset = ∅ ∧ nfa.CanGetStuck :=
  (mem_states_determinize closed).trans (deterministic.mem_discoveries_iff closed)

theorem mem_reachedStates {state : S} : state ∈ nfa.reachedStates ↔ nfa.Reached state := by
  rw [reachedStates, OrderedSet.mem_unionMap]
  simp only [deterministic.mem_states_determinize_iff closed, id_eq]
  constructor
  · rintro ⟨subset, ⟨other, reached, rfl⟩ | ⟨rfl, _⟩, member⟩
    · rwa [OrderedSet.mem_singleton.mp member]
    · exact absurd member Std.ExtTreeSet.not_mem_empty
  · intro reached
    exact ⟨{state}, .inl ⟨state, reached, rfl⟩, OrderedSet.mem_singleton.mpr rfl⟩

theorem mem_singletons :
    subset ∈ nfa.singletons ↔ ∃ state, nfa.Reached state ∧ subset = {state} := by
  simp only [singletons, OrderedSet.mem_image, deterministic.mem_reachedStates closed, eq_comm]

theorem size_states_determinize_of_not_stuck (notStuck : ¬nfa.CanGetStuck) :
    nfa.determinize.states.size = nfa.reachedStates.size := by
  have same : nfa.determinize.states = nfa.singletons := by
    apply Std.ExtTreeSet.ext_mem
    intro subset
    rw [deterministic.mem_states_determinize_iff closed, deterministic.mem_singletons closed]
    exact or_iff_left fun empty => notStuck empty.2
  rw [same, singletons, OrderedSet.size_image_singleton]

theorem size_states_determinize_of_stuck (stuck : nfa.CanGetStuck) :
    nfa.determinize.states.size = nfa.reachedStates.size + 1 := by
  have same : nfa.determinize.states = nfa.singletons.insert ∅ := by
    apply Std.ExtTreeSet.ext_mem
    intro subset
    rw [deterministic.mem_states_determinize_iff closed, OrderedSet.mem_insert,
      deterministic.mem_singletons closed, or_comm]
    exact or_congr_left (and_iff_left stuck)
  have fresh : ∅ ∉ nfa.singletons := by
    intro member
    obtain ⟨state, _, empty⟩ := (deterministic.mem_singletons closed).mp member
    have inside : state ∈ ({state} : OrderedSet S) := OrderedSet.mem_singleton.mpr rfl
    rw [← empty] at inside
    exact Std.ExtTreeSet.not_mem_empty inside
  rw [same, OrderedSet.size_insert_of_not_mem fresh, singletons, OrderedSet.size_image_singleton]

end Deterministic

/-- Determinizing an automaton without a choice keeps the part of it that can be reached. -/
theorem Built.isKeptIn_determinize
    (built : nfa.Built) (deterministic : nfa.Deterministic) :
    nfa.IsKeptIn nfa.determinize := by
  have closed := built.closed
  have expanded := expandedBy_determinize nfa
  have discovered : ∀ {state}, nfa.Reached state → {state} ∈ nfa.discoveries :=
    deterministic.singleton_mem_discoveries closed
  constructor
  · exact expanded.alphabet_eq
  · rw [expanded.start_eq, deterministic.startSubset_eq closed]
  · intro subset
    exact deterministic.mem_states_determinize_iff closed
  · intro source c target reached move
    rw [expanded.target?_of_mem {source} c (discovered reached) (closed.char_mem_of_hasMove move),
      deterministic.step_of_move closed move]
  · intro source c reached char lacks
    rw [expanded.target?_of_mem {source} c (discovered reached) char,
      deterministic.step_of_lacks closed lacks]
  · intro c stuck char
    rw [expanded.target?_of_mem ∅ c (deterministic.empty_mem_discoveries closed stuck) char,
      step_empty closed]
  · intro state reached
    have member := (mem_states_determinize closed).mpr (discovered reached)
    rw [isAccepting_determinize closed member]
    simp only [OrderedSet.mem_singleton, exists_eq_left]
  · apply Bool.eq_false_iff.mpr
    intro accepting
    have member := (expanded.mem_accepting ∅).mp (Std.ExtTreeSet.mem_iff_contains.mpr accepting)
    obtain ⟨state, impossible, _⟩ := OrderedSet.meets_iff.mp member.2
    exact Std.ExtTreeSet.not_mem_empty impossible
  · exact ⟨nfa.reachedStates, fun state => deterministic.mem_reachedStates closed,
      deterministic.size_states_determinize_of_not_stuck closed,
      deterministic.size_states_determinize_of_stuck closed⟩

/-- A case in which only a state that is not reached reads a character, so that this character leads
to the empty set. -/
theorem isKeptIn_determinize_unreached :
    let nfa := ((((singleton 0).addMove 0 (.char 'a') 1).addMove 1 (.char 'a') 0).addMove
      5 (.char 'b') 1).markAccepting 1
    nfa.Built ∧ nfa.Deterministic ∧ nfa.IsKeptIn nfa.determinize ∧
      ∅ ∈ nfa.determinize.states := by
  intro nfa
  have built : nfa.Built :=
    .markAccepting 1 (.addMove 5 (.char 'b') 1 (.addMove 1 (.char 'a') 0
      (.addMove 0 (.char 'a') 1 (.singleton 0))))
  have deterministic : nfa.Deterministic := by
    constructor
    · intro source target
      simp [nfa]
    · intro source c target other move otherMove
      simp only [nfa, hasMove_markAccepting, hasMove_addMove, hasMove_singleton,
        Symbol.char.injEq] at move otherMove
      grind
  have stuck : nfa.CanGetStuck := by
    refine ⟨0, 'b', .start, by decide, ?_⟩
    intro target
    simp [nfa]
  have kept := built.isKeptIn_determinize deterministic
  exact ⟨built, deterministic, kept, (kept.mem_states_iff ∅).mpr (.inr ⟨rfl, stuck⟩)⟩

end PatternAutomata.Nfa
