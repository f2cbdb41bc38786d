import PatternAutomata.Nfa.Search
import PatternAutomata.Proofs.Nfa.Runs

/-!
# Epsilon closures are exact

The search for epsilon closures finds the states that chains of epsilon moves reach, and no others.
A state is stacked when it is found, and everything found is a source or a state of the automaton;
so the stack runs empty within the bound that `closureOf` sets.  The invariant is kept by a pass that
takes any of the stacked states; the search that runs is one that takes the state on top.
-/

namespace PatternAutomata.Nfa

variable {S : Type} [Ord S] [Std.TransOrd S]

/-- What holds whenever the search takes a state from its stack: what has been found is reachable,
and every epsilon move that has not been followed yet starts on the stack. -/
structure SearchInvariant (nfa : Nfa S) (sources : OrderedSet S) (stack : List S)
    (found : OrderedSet S) : Prop where
  source_mem : ∀ source, source ∈ sources → source ∈ found
  stack_mem : ∀ state, state ∈ stack → state ∈ found
  reachable : ∀ state, state ∈ found →
    ∃ source, source ∈ sources ∧ nfa.EpsilonReach source state
  bounded : ∀ state, state ∈ found → state ∈ nfa.states ∪ sources
  followed : ∀ source target, source ∈ found → nfa.HasMove source .epsilon target →
    source ∈ stack ∨ target ∈ found

/-- The targets of the epsilon moves from a state that have not been found yet. -/
def freshTargets (nfa : Nfa S) (state : S) (found : OrderedSet S) : List S :=
  (nfa.targets state .epsilon).toList.filter fun target => !found.contains target

variable [Std.LawfulEqOrd S]

theorem SearchInvariant.initial (nfa : Nfa S) (sources : OrderedSet S) :
    nfa.SearchInvariant sources sources.toList sources where
  source_mem _ member := member
  stack_mem _ member := Std.ExtTreeSet.mem_toList.mp member
  reachable state member := ⟨state, member, .refl state⟩
  bounded _ member := Std.ExtTreeSet.mem_union_iff.mpr (.inr member)
  followed _ _ member _ := .inl (Std.ExtTreeSet.mem_toList.mpr member)

theorem mem_freshTargets {nfa : Nfa S} {state target : S} {found : OrderedSet S} :
    target ∈ nfa.freshTargets state found ↔
      nfa.HasMove state .epsilon target ∧ target ∉ found := by
  have absent : (!found.contains target) = true ↔ target ∉ found := by
    rw [Std.ExtTreeSet.mem_iff_contains, Bool.not_eq_true, Bool.not_eq_true']
  rw [freshTargets, List.mem_filter, Std.ExtTreeSet.mem_toList, absent, HasMove]

/-- The search for closures takes the state on top and puts what it finds on top. -/
theorem searchPass_freshTargets {nfa : Nfa S} {found : OrderedSet S} {state : S} {stack : List S} :
    nfa.SearchPass ⟨state :: stack, found⟩
      ⟨nfa.freshTargets state found ++ stack, found.insertMany (nfa.freshTargets state found)⟩ :=
  .take state (.refl _) (OrderedSet.nodup_toList.filter _) (fun _ => mem_freshTargets) (.refl _)

/-- A pass finds one state for each that it stacks, and one state leaves the stack. -/
theorem SearchPass.size_found {nfa : Nfa S} {search next : Search S}
    (pass : nfa.SearchPass search next) :
    next.found.size + search.stack.length = search.found.size + next.stack.length + 1 := by
  cases pass with
  | @take stack others fresh next found state stacked distinct mem_fresh restacked =>
      have grown : (found.insertMany fresh).size = found.size + fresh.length :=
        OrderedSet.size_insertMany distinct fun target member => ((mem_fresh target).mp member).2
      have before := stacked.length_eq
      have after := restacked.length_eq
      rw [List.length_cons] at before
      rw [List.length_append] at after
      change (found.insertMany fresh).size + stack.length = found.size + next.length + 1
      omega

theorem SearchInvariant.pass
    {nfa : Nfa S} {sources : OrderedSet S} {search next : Search S}
    (closed : nfa.Closed)
    (invariant : nfa.SearchInvariant sources search.stack search.found)
    (pass : nfa.SearchPass search next) :
    nfa.SearchInvariant sources next.stack next.found := by
  cases pass with
  | @take stack others fresh next found state stacked _ mem_fresh restacked =>
  have current : state ∈ found :=
    invariant.stack_mem state (stacked.mem_iff.mpr List.mem_cons_self)
  constructor
  · intro source member
    exact OrderedSet.mem_insertMany.mpr (.inl (invariant.source_mem source member))
  · intro other member
    apply OrderedSet.mem_insertMany.mpr
    rcases List.mem_append.mp (restacked.mem_iff.mp member) with fresh | old
    · exact .inr fresh
    · exact .inl (invariant.stack_mem other (stacked.mem_iff.mpr (List.mem_cons_of_mem _ old)))
  · intro other member
    rcases OrderedSet.mem_insertMany.mp member with old | fresh
    · exact invariant.reachable other old
    · obtain ⟨source, among, reach⟩ := invariant.reachable state current
      have move := ((mem_fresh other).mp fresh).1
      exact ⟨source, among, reach.trans (.step move (.refl other))⟩
  · intro other member
    rcases OrderedSet.mem_insertMany.mp member with old | fresh
    · exact invariant.bounded other old
    · have move := ((mem_fresh other).mp fresh).1
      exact Std.ExtTreeSet.mem_union_iff.mpr (.inl (closed.target_mem_of_hasMove move))
  · intro source target member move
    rw [restacked.mem_iff, List.mem_append, OrderedSet.mem_insertMany]
    rcases OrderedSet.mem_insertMany.mp member with old | fresh
    · rcases invariant.followed source target old move with waiting | present
      · rcases List.mem_cons.mp (stacked.mem_iff.mp waiting) with rfl | later
        · by_cases present : target ∈ found
          · exact .inr (.inl present)
          · exact .inr (.inr ((mem_fresh target).mpr ⟨move, present⟩))
        · exact .inl (.inr later)
      · exact .inr (.inl present)
    · exact .inl (.inl fresh)

theorem SearchInvariant.passes
    {nfa : Nfa S} {sources : OrderedSet S} {search last : Search S} {count : Nat}
    (closed : nfa.Closed)
    (invariant : nfa.SearchInvariant sources search.stack search.found)
    (passes : nfa.SearchPasses count search last) :
    nfa.SearchInvariant sources last.stack last.found := by
  induction passes with
  | none => exact invariant
  | more pass _ ih => exact ih (invariant.pass closed pass)

/-- The fuel that is left covers the stack and everything that can still be found, so the search
goes on until its stack is empty. -/
theorem SearchInvariant.exists_searchPasses
    {nfa : Nfa S} {sources found : OrderedSet S} {stack : List S} {fuel : Nat}
    (closed : nfa.Closed)
    (invariant : nfa.SearchInvariant sources stack found)
    (enough : stack.length + (nfa.states ∪ sources).size ≤ fuel + found.size) :
    ∃ count, nfa.SearchPasses count ⟨stack, found⟩ ⟨[], nfa.searchEpsilon fuel stack found⟩ := by
  induction fuel generalizing stack found with
  | zero =>
      have bound : found.size ≤ (nfa.states ∪ sources).size :=
        OrderedSet.size_le_size invariant.bounded
      have empty : stack = [] := List.eq_nil_of_length_eq_zero (by omega)
      subst empty
      exact ⟨0, .none _⟩
  | succ fuel ih =>
      cases stack with
      | nil => exact ⟨0, .none _⟩
      | cons state stack =>
          let fresh := nfa.freshTargets state found
          have pass : nfa.SearchPass ⟨state :: stack, found⟩
              ⟨fresh ++ stack, found.insertMany fresh⟩ := searchPass_freshTargets
          have advanced : nfa.SearchInvariant sources (fresh ++ stack) (found.insertMany fresh) :=
            invariant.pass closed pass
          have grown : (found.insertMany fresh).size + (stack.length + 1) =
              found.size + (fresh ++ stack).length + 1 := pass.size_found
          rw [List.length_cons] at enough
          obtain ⟨count, passes⟩ := ih advanced (by omega)
          exact ⟨count + 1, .more pass passes⟩

theorem exists_searchPasses_closureOf
    {nfa : Nfa S} (closed : nfa.Closed) (sources : OrderedSet S) :
    ∃ count, nfa.SearchPasses count (.start sources) ⟨[], nfa.closureOf sources⟩ := by
  apply SearchInvariant.exists_searchPasses closed (.initial nfa sources)
  have bound : (nfa.states ∪ sources).size ≤ nfa.states.size + sources.size :=
    Std.ExtTreeSet.size_union_le_size_add_size
  rw [Std.ExtTreeSet.length_toList]
  omega

theorem searchInvariant_closureOf
    {nfa : Nfa S} (closed : nfa.Closed) (sources : OrderedSet S) :
    nfa.SearchInvariant sources [] (nfa.closureOf sources) := by
  obtain ⟨_, passes⟩ := exists_searchPasses_closureOf closed sources
  exact SearchInvariant.passes closed (.initial nfa sources) passes

omit [Std.LawfulEqOrd S] in
/-- Once nothing is stacked, what has been found is closed under epsilon moves. -/
theorem SearchInvariant.mem_of_reach
    {nfa : Nfa S} {sources found : OrderedSet S} {source target : S}
    (invariant : nfa.SearchInvariant sources [] found)
    (reach : nfa.EpsilonReach source target) (member : source ∈ found) :
    target ∈ found := by
  induction reach with
  | refl => exact member
  | step move _ ih =>
      have next := invariant.followed _ _ member move
      exact ih (next.resolve_left List.not_mem_nil)

omit [Std.LawfulEqOrd S] in
theorem SearchInvariant.mem_iff
    {nfa : Nfa S} {sources found : OrderedSet S} {target : S}
    (invariant : nfa.SearchInvariant sources [] found) :
    target ∈ found ↔ ∃ source, source ∈ sources ∧ nfa.EpsilonReach source target := by
  constructor
  · exact invariant.reachable target
  · intro reached
    obtain ⟨source, member, reach⟩ := reached
    exact invariant.mem_of_reach reach (invariant.source_mem source member)

/-- The closure of a set holds exactly what chains of epsilon moves reach from its members. -/
theorem mem_closureOf
    {nfa : Nfa S} (closed : nfa.Closed) {sources : OrderedSet S} {target : S} :
    target ∈ nfa.closureOf sources ↔
      ∃ source, source ∈ sources ∧ nfa.EpsilonReach source target :=
  (searchInvariant_closureOf closed sources).mem_iff

theorem mem_closure {nfa : Nfa S} (closed : nfa.Closed) {state target : S} :
    target ∈ nfa.closure state ↔ nfa.EpsilonReach state target := by
  rw [closure, mem_closureOf closed]
  simp only [OrderedSet.mem_singleton, exists_eq_left]

theorem mem_step
    {nfa : Nfa S} (closed : nfa.Closed) {subset : OrderedSet S} {c : Char} {target : S} :
    target ∈ nfa.step subset c ↔
      ∃ before after, before ∈ subset ∧ nfa.HasMove before (.char c) after ∧
        nfa.EpsilonReach after target := by
  simp only [step, mem_closureOf closed, OrderedSet.mem_unionMap]
  constructor
  · intro reached
    obtain ⟨after, ⟨before, member, move⟩, reach⟩ := reached
    exact ⟨before, after, member, move, reach⟩
  · intro reached
    obtain ⟨before, after, member, move, reach⟩ := reached
    exact ⟨after, ⟨before, member, move⟩, reach⟩

theorem step_empty {nfa : Nfa S} (closed : nfa.Closed) (c : Char) : nfa.step ∅ c = ∅ := by
  rw [Std.ExtTreeSet.eq_empty_iff_forall_not_mem]
  intro state member
  obtain ⟨before, _, impossible, _⟩ := (mem_step closed).mp member
  exact Std.ExtTreeSet.not_mem_empty impossible

end PatternAutomata.Nfa
