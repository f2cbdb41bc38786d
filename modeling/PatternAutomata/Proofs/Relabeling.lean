import PatternAutomata.Proofs.Dfa.Relabeling
import PatternAutomata.Proofs.Nfa.Relabeling
import PatternAutomata.Relabeling

/-!
# Renamings compose

The rows of a renamed automaton are renamed keys, and what keys do carries over to automata of both
kinds: two renamings are one unless the first reverses states that are merged in the end.  A renaming
that is undone by a second one merges nothing in the end, and names every state as before.
-/

namespace PatternAutomata

variable {S T U : Type} [Ord S] [Std.TransOrd S] [Std.LawfulEqOrd S]
  [Ord T] [Std.TransOrd T] [Std.LawfulEqOrd T] [Ord U] [Std.TransOrd U] [Std.LawfulEqOrd U]

namespace Nfa.Closed

variable {nfa : Nfa S} (closed : nfa.Closed)

include closed

omit [Std.LawfulEqOrd S] in
/-- The states that have rows are those that have moves. -/
theorem mem_rows_eq_hasMoves : (· ∈ nfa.rows) = nfa.HasMoves := by
  funext source
  apply propext
  constructor
  · intro member
    obtain ⟨row, present⟩ := OrderedMap.mem_iff_exists.mp member
    have rowClosed := closed.row_closed source row present
    obtain ⟨symbol, among⟩ := OrderedMap.exists_mem_of_ne_empty rowClosed.nonempty
    obtain ⟨targets, entry⟩ := OrderedMap.mem_iff_exists.mp among
    obtain ⟨target, inside⟩ :=
      OrderedSet.exists_mem_of_ne_empty (rowClosed.targets_nonempty symbol targets entry)
    exact ⟨symbol, target, hasMove_iff.mpr ⟨row, targets, present, entry, inside⟩⟩
  · intro moves
    obtain ⟨symbol, target, move⟩ := moves
    exact mem_rows_of_hasMove move

theorem relabel_relabel {f : S → T} {g : T → U}
    (inOrder : OrderedMap.MergesInOrder f g (· ∈ nfa.states)) :
    (nfa.relabel f).relabel g = nfa.relabel (g ∘ f) :=
  Nfa.relabel_relabel (inOrder.mono fun _ member => closed.source_mem_of_mem_rows member)

/-- A renaming that names every state as before changes nothing. -/
theorem relabel_eq_self {f : S → S} (fixed : ∀ state, state ∈ nfa.states → f state = state) :
    nfa.relabel f = nfa := by
  have injective : OrderedSet.InjectiveOn f nfa.states := .of_fixed fixed
  have fixedAccepting : ∀ state, state ∈ nfa.accepting → f state = state :=
    fun state member => fixed state (closed.accepting_mem state member)
  apply Closed.ext (closed.relabel f) closed
  · intro c
    rfl
  · intro state
    exact Std.ExtTreeSet.ext_mem_iff.mp (OrderedSet.image_eq_self fixed) state
  · exact fixed nfa.start closed.start_mem
  · intro source symbol target
    rw [hasMove_relabel_iff (closed.distinguishes injective)]
    constructor
    · intro moved
      obtain ⟨origin, goal, move, rfl, rfl⟩ := moved
      rwa [fixed origin (closed.source_mem_of_hasMove move),
        fixed goal (closed.target_mem_of_hasMove move)]
    · intro move
      exact ⟨source, target, move, fixed source (closed.source_mem_of_hasMove move),
        fixed target (closed.target_mem_of_hasMove move)⟩
  · intro state
    exact Std.ExtTreeSet.ext_mem_iff.mp (OrderedSet.image_eq_self fixedAccepting) state

theorem relabelingsCompose : nfa.RelabelingsCompose := by
  constructor
  · intro T _ _ _ f name symbol goal
    rw [hasMove_relabel, closed.mem_rows_eq_hasMoves]
  · intro T U _ _ _ _ _ _ f g injective
    exact closed.relabel_relabel (.of_injective injective)
  · intro T U _ _ _ _ _ _ f g nonDecreasing
    exact closed.relabel_relabel (.of_nonDecreasingOn nonDecreasing)
  · intro T _ _ _ f g inverse
    have injective : OrderedSet.InjectiveOn (g ∘ f) nfa.states := .of_fixed inverse
    have inOrder : OrderedMap.MergesInOrder f g (· ∈ nfa.states) := .of_injective injective
    rw [closed.relabel_relabel inOrder]
    exact closed.relabel_eq_self inverse

end Nfa.Closed

namespace Dfa.Closed

variable {dfa : Dfa S} (closed : dfa.Closed)

include closed

omit [Std.LawfulEqOrd S] in
/-- The states that have rows are those that have moves. -/
theorem mem_rows_eq_hasMoves : (· ∈ dfa.rows) = dfa.HasMoves := by
  funext source
  apply propext
  constructor
  · intro member
    obtain ⟨row, present⟩ := OrderedMap.mem_iff_exists.mp member
    obtain ⟨c, among⟩ :=
      OrderedMap.exists_mem_of_ne_empty (closed.row_closed source row present).nonempty
    obtain ⟨target, entry⟩ := OrderedMap.mem_iff_exists.mp among
    exact ⟨c, target, target?_eq_some_iff.mpr ⟨row, present, entry⟩⟩
  · intro moves
    obtain ⟨c, target, move⟩ := moves
    exact mem_rows_of_target? move

/-- A renaming that names every state as before changes nothing. -/
theorem relabel_eq_self {f : S → S} (fixed : ∀ state, state ∈ dfa.states → f state = state) :
    dfa.relabel f = dfa := by
  have injective : OrderedSet.InjectiveOn f dfa.states := .of_fixed fixed
  have fixedAccepting : ∀ state, state ∈ dfa.accepting → f state = state :=
    fun state member => fixed state (closed.accepting_mem state member)
  apply Closed.ext (closed.relabel f) closed
  · rfl
  · intro state
    exact Std.ExtTreeSet.ext_mem_iff.mp (OrderedSet.image_eq_self fixed) state
  · exact fixed dfa.start closed.start_mem
  · intro source c target
    rw [closed.target?_relabel_iff injective]
    constructor
    · intro moved
      obtain ⟨origin, goal, move, rfl, rfl⟩ := moved
      rwa [fixed origin (closed.source_mem_of_target? move),
        fixed goal (closed.target_mem_of_target? move)]
    · intro move
      exact ⟨source, target, move, fixed source (closed.source_mem_of_target? move),
        fixed target (closed.target_mem_of_target? move)⟩
  · intro state
    exact Std.ExtTreeSet.ext_mem_iff.mp (OrderedSet.image_eq_self fixedAccepting) state
  · rfl

theorem relabelingsCompose : dfa.RelabelingsCompose := by
  constructor
  · intro T _ _ _ f name c goal
    rw [target?_relabel, closed.mem_rows_eq_hasMoves]
  · intro T U _ _ _ _ _ _ f g injective
    exact closed.relabel_relabel (.of_injective injective)
  · intro T U _ _ _ _ _ _ f g nonDecreasing
    exact closed.relabel_relabel (.of_nonDecreasingOn nonDecreasing)
  · intro T _ _ _ f g inverse
    have injective : OrderedSet.InjectiveOn (g ∘ f) dfa.states := .of_fixed inverse
    have inOrder : OrderedMap.MergesInOrder f g (· ∈ dfa.states) := .of_injective injective
    rw [closed.relabel_relabel inOrder]
    exact closed.relabel_eq_self inverse

end Dfa.Closed

/-- Renamings of whatever the operations build compose, with epsilon moves or deterministic. -/
theorem relabelings_compose :
    (∀ (S : Type) [Ord S] [Std.TransOrd S] [Std.LawfulEqOrd S] (nfa : Nfa S),
      nfa.Built → nfa.RelabelingsCompose) ∧
        ∀ (S : Type) [Ord S] [Std.TransOrd S] [Std.LawfulEqOrd S] (dfa : Dfa S),
          dfa.Built → dfa.RelabelingsCompose := by
  constructor
  · intro S _ _ _ nfa built
    exact built.closed.relabelingsCompose
  · intro S _ _ _ dfa built
    exact built.closed.relabelingsCompose

/-- A case in which halving merges states step by step, and subtracting from three reverses them. -/
theorem relabelings_compose_halved :
    let nfa := ((Nfa.singleton 0).addMove 2 (.char 'a') 3).addMove 3 (.char 'b') 0
    let dfa := ((Dfa.singleton ∅ 0).setMove 2 'a' 3).setMove 3 'b' 0
    nfa.Built ∧ dfa.Built ∧
      (nfa.relabel (· / 2)).relabel (· / 2) = nfa.relabel ((· / 2) ∘ (· / 2)) ∧
      (dfa.relabel (· / 2)).relabel (· / 2) = dfa.relabel ((· / 2) ∘ (· / 2)) ∧
      (nfa.relabel (3 - ·)).relabel (3 - ·) = nfa ∧ (dfa.relabel (3 - ·)).relabel (3 - ·) = dfa := by
  intro nfa dfa
  have nfaBuilt : nfa.Built :=
    .addMove 3 (.char 'b') 0 (.addMove 2 (.char 'a') 3 (.singleton 0))
  have dfaBuilt : dfa.Built := .setMove 3 'b' 0 (.setMove 2 'a' 3 (.singleton ∅ 0))
  have nfaStates : ∀ state, state ∈ nfa.states ↔ state = 0 ∨ state = 3 ∨ state = 2 := by
    intro state
    simp only [nfa, Nfa.addMove, Nfa.singleton, OrderedSet.mem_insert, OrderedSet.mem_singleton]
    omega
  have dfaStates : ∀ state, state ∈ dfa.states ↔ state = 0 ∨ state = 3 ∨ state = 2 := by
    intro state
    simp only [dfa, Dfa.setMove, Dfa.singleton, OrderedSet.mem_insert, OrderedSet.mem_singleton]
    omega
  have halving : ∀ states : OrderedSet Nat, OrderedSet.NonDecreasingOn (· / 2) states := by
    intro states first second _ _ below
    rw [Nat.isLE_compare]
    exact Nat.div_le_div_right (Nat.le_of_lt (Nat.compare_eq_lt.mp below))
  have reversed : ∀ state, state = 0 ∨ state = 3 ∨ state = 2 → 3 - (3 - state) = state := by
    omega
  have nfaCompose := relabelings_compose.1 Nat nfa nfaBuilt
  have dfaCompose := relabelings_compose.2 Nat dfa dfaBuilt
  refine ⟨nfaBuilt, dfaBuilt, ?_, ?_, ?_, ?_⟩
  · exact nfaCompose.of_nonDecreasingOn _ _ (halving nfa.states)
  · exact dfaCompose.of_nonDecreasingOn _ _ (halving dfa.states)
  · exact nfaCompose.of_inverse _ _ fun state member => reversed state ((nfaStates state).mp member)
  · exact dfaCompose.of_inverse _ _ fun state member => reversed state ((dfaStates state).mp member)

end PatternAutomata
