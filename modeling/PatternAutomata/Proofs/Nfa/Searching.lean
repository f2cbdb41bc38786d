import PatternAutomata.Proofs.Nfa.EpsilonClosure

/-!
# Searching for closures

However a search for an epsilon closure picks the states from its stack, it makes no more passes
than there are states to be found, and what it has found when its stack is empty is the closure.
-/

namespace PatternAutomata.Nfa

variable {S : Type} [Ord S] [Std.TransOrd S] [Std.LawfulEqOrd S]

section Passes

variable {nfa : Nfa S} {sources : OrderedSet S} {search last : Search S} {count : Nat}

theorem SearchPasses.size_found (passes : nfa.SearchPasses count search last) :
    last.found.size + search.stack.length = search.found.size + last.stack.length + count := by
  induction passes with
  | none => rfl
  | more pass _ ih =>
      have grown := pass.size_found
      omega

/-- Every pass uses up a state that has been found, and what is found is a source or a state. -/
theorem SearchPasses.count_le
    (closed : nfa.Closed) (passes : nfa.SearchPasses count (.start sources) search) :
    count ≤ nfa.states.size + sources.size := by
  have invariant : nfa.SearchInvariant sources search.stack search.found :=
    SearchInvariant.passes closed (.initial nfa sources) passes
  have grown : search.found.size + sources.toList.length =
      sources.size + search.stack.length + count := passes.size_found
  rw [Std.ExtTreeSet.length_toList] at grown
  calc
    count ≤ search.found.size := by omega
    _ ≤ (nfa.states ∪ sources).size := OrderedSet.size_le_size invariant.bounded
    _ ≤ nfa.states.size + sources.size := Std.ExtTreeSet.size_union_le_size_add_size

theorem SearchPasses.found_eq
    (closed : nfa.Closed) (passes : nfa.SearchPasses count (.start sources) search)
    (done : search.stack = []) : search.found = nfa.closureOf sources := by
  have invariant : nfa.SearchInvariant sources search.stack search.found :=
    SearchInvariant.passes closed (.initial nfa sources) passes
  rw [done] at invariant
  apply Std.ExtTreeSet.ext_mem
  intro state
  rw [invariant.mem_iff, mem_closureOf closed]

theorem exists_searchPass (stacked : search.stack ≠ []) : ∃ next, nfa.SearchPass search next := by
  obtain ⟨stack, found⟩ := search
  cases stack with
  | nil => exact absurd rfl stacked
  | cons state stack => exact ⟨_, searchPass_freshTargets⟩

end Passes

theorem closure_subset
    {nfa : Nfa S} {state member target : S} (closed : nfa.Closed)
    (among : member ∈ nfa.closure state) (reached : target ∈ nfa.closure member) :
    target ∈ nfa.closure state := by
  rw [mem_closure closed] at among reached ⊢
  exact among.trans reached

theorem unionMap_closure {nfa : Nfa S} (closed : nfa.Closed) (state : S) :
    OrderedSet.unionMap nfa.closure (nfa.closure state) = nfa.closure state := by
  apply Std.ExtTreeSet.ext_mem
  intro target
  rw [OrderedSet.mem_unionMap]
  constructor
  · intro reached
    obtain ⟨member, among, reached⟩ := reached
    exact closure_subset closed among reached
  · intro member
    exact ⟨target, member, (mem_closure closed).mpr (.refl target)⟩

/-- The set is all that the state reaches without reading: closing its members again adds nothing,
and every search from the state ends, with this set. -/
structure IsEpsilonClosure (nfa : Nfa S) (state : S) (closure : OrderedSet S) : Prop where
  mem_iff : ∀ target, target ∈ closure ↔ nfa.EpsilonReach state target
  unionMap_eq : OrderedSet.unionMap nfa.closure closure = closure
  subset : ∀ member target, member ∈ closure → target ∈ nfa.closure member → target ∈ closure
  exists_passes : ∃ count, nfa.SearchPasses count (.start {state}) ⟨[], closure⟩
  count_le : ∀ count search, nfa.SearchPasses count (.start {state}) search →
    count ≤ nfa.states.size + 1
  exists_pass : ∀ count search, nfa.SearchPasses count (.start {state}) search →
    search.stack ≠ [] → ∃ next, nfa.SearchPass search next
  found_eq : ∀ count search, nfa.SearchPasses count (.start {state}) search →
    search.stack = [] → search.found = closure

/-- In whatever the operations build, the closure of any value is exact. -/
theorem Built.isEpsilonClosure_closure {nfa : Nfa S} (built : nfa.Built) (state : S) :
    nfa.IsEpsilonClosure state (nfa.closure state) := by
  have closed := built.closed
  constructor
  · intro target
    exact mem_closure closed
  · exact unionMap_closure closed state
  · intro member target
    exact closure_subset closed
  · exact exists_searchPasses_closureOf closed {state}
  · intro count search passes
    exact passes.count_le closed
  · intro _ search _
    exact exists_searchPass
  · intro count search passes
    exact passes.found_eq closed

/-- A cycle with a loop on it, searched from one of its states and from a value that is no state. -/
theorem isEpsilonClosure_closure_cycle :
    let nfa := (((((singleton 0).addMove 0 .epsilon 1).addMove 1 .epsilon 2).addMove
      2 .epsilon 2).addMove 2 .epsilon 0).addMove 1 (.char 'a') 3
    nfa.Built ∧ nfa.IsEpsilonClosure 1 (nfa.closure 1) ∧ (nfa.closure 1).toList = [0, 1, 2] ∧
      7 ∉ nfa.states ∧ nfa.IsEpsilonClosure 7 (nfa.closure 7) := by
  intro nfa
  have built : nfa.Built :=
    .addMove 1 (.char 'a') 3 (.addMove 2 .epsilon 0 (.addMove 2 .epsilon 2
      (.addMove 1 .epsilon 2 (.addMove 0 .epsilon 1 (.singleton 0)))))
  exact ⟨built, built.isEpsilonClosure_closure 1, by decide, by decide,
    built.isEpsilonClosure_closure 7⟩

end PatternAutomata.Nfa
