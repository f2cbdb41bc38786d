import PatternAutomata.Dfa.Listing
import PatternAutomata.Proofs.Dfa.Numbering
import PatternAutomata.Proofs.Nfa.Determinization
import PatternAutomata.Proofs.Nfa.Embedding

/-!
# Determinizing renamed automata

Let a renaming tell the states of an automaton apart.  In the renamed automaton a word leads to the
image of the subset to which it leads in the given one.  So the two surveys discover corresponding
subsets with corresponding steps between them, and that determines the deterministic automata: in
what order a survey has come across the subsets does not show in them.

Subsets are ordered as their listings.  A renaming that keeps the order of the states therefore
keeps the order of the subsets, and then even the numbers of the subsets are the same.
-/

namespace PatternAutomata.Nfa

variable {S T : Type} [Ord S] [Std.TransOrd S] [Std.LawfulEqOrd S]
  [Ord T] [Std.TransOrd T] [Std.LawfulEqOrd T]
  {nfa : Nfa S} {f : S → T}

omit [Std.LawfulEqOrd S] [Ord T] [Std.TransOrd T] [Std.LawfulEqOrd T] in
theorem Closed.distinguishes
    (closed : nfa.Closed) (injective : OrderedSet.InjectiveOn f nfa.states) :
    Distinguishes f nfa (· ∈ nfa.states) where
  source_known _ member := closed.source_mem_of_mem_rows member
  target_known _ _ _ move := closed.target_mem_of_hasMove move
  injective := injective

theorem mem_states_of_mem_discoveries
    (closed : nfa.Closed) {subset : OrderedSet S} (discovered : subset ∈ nfa.discoveries) :
    ∀ state, state ∈ subset → state ∈ nfa.states := by
  intro state member
  rw [← order_survey closed] at discovered
  exact (surveyInvariant_survey nfa).mem_states closed discovered member

section Injective

variable (closed : nfa.Closed) (injective : OrderedSet.InjectiveOn f nfa.states)

include closed injective

/-- A word leads to the image of the subset to which it leads in the given automaton. -/
theorem subsetAfter_relabel (word : List Char) :
    (nfa.relabel f).subsetAfter word = OrderedSet.image f (nfa.subsetAfter word) := by
  apply Std.ExtTreeSet.ext_mem
  intro name
  rw [mem_subsetAfter (closed.relabel f), OrderedSet.mem_image]
  simp only [mem_subsetAfter closed]
  exact run_relabel_iff (closed.distinguishes injective) closed.start_mem

/-- The subsets that the renamed automaton can be in are the images of the given one's. -/
theorem mem_discoveries_relabel {name : OrderedSet T} :
    name ∈ (nfa.relabel f).discoveries ↔
      ∃ subset ∈ nfa.discoveries, OrderedSet.image f subset = name := by
  rw [mem_discoveries (closed.relabel f)]
  simp only [mem_discoveries closed]
  constructor
  · intro leads
    obtain ⟨word, spellable, rfl⟩ := leads
    exact ⟨nfa.subsetAfter word, ⟨word, spellable, rfl⟩,
      (subsetAfter_relabel closed injective word).symm⟩
  · intro named
    obtain ⟨subset, ⟨word, spellable, rfl⟩, rfl⟩ := named
    exact ⟨word, spellable, subsetAfter_relabel closed injective word⟩

/-- Stepping from the image of a subset is stepping from the subset. -/
theorem step_relabel
    {subset : OrderedSet S} (discovered : subset ∈ nfa.discoveries) (c : Char) :
    (nfa.relabel f).step (OrderedSet.image f subset) c =
      OrderedSet.image f (nfa.step subset c) := by
  obtain ⟨word, _, rfl⟩ := (mem_discoveries closed).mp discovered
  calc
    (nfa.relabel f).step (OrderedSet.image f (nfa.subsetAfter word)) c =
        (nfa.relabel f).step ((nfa.relabel f).subsetAfter word) c := by
      rw [subsetAfter_relabel closed injective]
    _ = (nfa.relabel f).subsetAfter (word ++ [c]) := (subsetAfter_concat _ word c).symm
    _ = OrderedSet.image f (nfa.subsetAfter (word ++ [c])) :=
      subsetAfter_relabel closed injective (word ++ [c])
    _ = OrderedSet.image f (nfa.step (nfa.subsetAfter word) c) := by
      rw [subsetAfter_concat]

theorem injectiveOn_image_determinize :
    OrderedSet.InjectiveOn (OrderedSet.image f) nfa.determinize.states :=
  injective.image fun _ member =>
    mem_states_of_mem_discoveries closed ((mem_states_determinize closed).mp member)

theorem target?_determinize_relabel_iff {name goal : OrderedSet T} {c : Char} :
    (nfa.relabel f).determinize.target? name c = some goal ↔
      (nfa.determinize.relabel (OrderedSet.image f)).target? name c = some goal := by
  rw [target?_determinize_iff, mem_discoveries_relabel closed injective,
    (built_determinize nfa).closed.target?_relabel_iff
      (injectiveOn_image_determinize closed injective)]
  simp only [target?_determinize_iff]
  constructor
  · intro move
    obtain ⟨⟨subset, discovered, rfl⟩, char, rfl⟩ := move
    exact ⟨subset, nfa.step subset c, ⟨discovered, char, rfl⟩, rfl,
      (step_relabel closed injective discovered c).symm⟩
  · intro move
    obtain ⟨subset, target, ⟨discovered, char, rfl⟩, rfl, rfl⟩ := move
    exact ⟨⟨subset, discovered, rfl⟩, char, step_relabel closed injective discovered c⟩

theorem mem_accepting_determinize_relabel {name : OrderedSet T} :
    name ∈ (nfa.relabel f).determinize.accepting ↔
      ∃ subset ∈ nfa.determinize.accepting, OrderedSet.image f subset = name := by
  have meets : ∀ {subset : OrderedSet S}, subset ∈ nfa.discoveries →
      OrderedSet.meets (OrderedSet.image f subset) (nfa.relabel f).accepting =
        OrderedSet.meets subset nfa.accepting := by
    intro subset discovered
    exact injective.meets_image (mem_states_of_mem_discoveries closed discovered)
      closed.accepting_mem
  rw [(expandedBy_determinize (nfa.relabel f)).mem_accepting,
    mem_discoveries_relabel closed injective]
  simp only [(expandedBy_determinize nfa).mem_accepting]
  constructor
  · intro accepting
    obtain ⟨⟨subset, discovered, rfl⟩, common⟩ := accepting
    exact ⟨subset, ⟨discovered, meets discovered ▸ common⟩, rfl⟩
  · intro accepting
    obtain ⟨subset, ⟨discovered, common⟩, rfl⟩ := accepting
    exact ⟨⟨subset, discovered, rfl⟩, (meets discovered).trans common⟩

theorem determinize_relabel_eq :
    (nfa.relabel f).determinize = nfa.determinize.relabel (OrderedSet.image f) := by
  have expanded := expandedBy_determinize nfa
  have renamed := expandedBy_determinize (nfa.relabel f)
  apply Dfa.Closed.ext (built_determinize (nfa.relabel f)).closed
    ((built_determinize nfa).closed.relabel (OrderedSet.image f))
  · exact renamed.alphabet_eq.trans expanded.alphabet_eq.symm
  · intro name
    apply (mem_states_determinize (closed.relabel f)).trans
    apply (mem_discoveries_relabel closed injective).trans
    simp only [Dfa.relabel, OrderedSet.mem_image, mem_states_determinize closed]
  · calc
      (nfa.relabel f).determinize.start = (nfa.relabel f).startSubset := renamed.start_eq
      _ = OrderedSet.image f nfa.startSubset := subsetAfter_relabel closed injective []
      _ = OrderedSet.image f nfa.determinize.start := by rw [expanded.start_eq]
  · intro name c goal
    exact target?_determinize_relabel_iff closed injective
  · intro name
    exact (mem_accepting_determinize_relabel closed injective).trans OrderedSet.mem_image.symm
  · exact renamed.missing_eq.trans expanded.missing_eq.symm

end Injective

/-- Determinizing a renamed automaton is renaming the subsets, and if the renaming keeps the order
of the states, the numbered automata and their texts are the same. -/
theorem Built.determinize_relabel
    (built : nfa.Built) (injective : OrderedSet.InjectiveOn f nfa.states) :
    (nfa.relabel f).determinize = nfa.determinize.relabel (OrderedSet.image f) ∧
      (OrderedSet.IncreasingOn f nfa.states →
        (nfa.relabel f).determinize.renumber = nfa.determinize.renumber ∧
          (nfa.relabel f).determinize.renumber.listing = nfa.determinize.renumber.listing) := by
  have closed := built.closed
  have renamed := determinize_relabel_eq closed injective
  refine ⟨renamed, ?_⟩
  intro increasing
  have ordered : OrderedSet.IncreasingOn (OrderedSet.image f) nfa.determinize.states :=
    increasing.image fun _ member =>
      mem_states_of_mem_discoveries closed ((mem_states_determinize closed).mp member)
  have same : (nfa.relabel f).determinize.renumber = nfa.determinize.renumber := by
    rw [renamed]
    exact (built_determinize nfa).closed.renumber_relabel ordered
  exact ⟨same, congrArg Dfa.listing same⟩

/-- A case with an epsilon cycle and an unreachable state, and with a renaming that keeps the order
of the states but does not tell all numbers apart. -/
theorem determinize_relabel_cycle :
    let nfa := (((((singleton 0).addMove 0 .epsilon 1).addMove 1 .epsilon 0).addMove
      1 (.char 'a') 2).addMove 5 (.char 'b') 2).markAccepting 2
    let square := fun state => state * state % 40
    nfa.Built ∧ OrderedSet.InjectiveOn square nfa.states ∧
      OrderedSet.IncreasingOn square nfa.states ∧ square 3 = square 7 ∧
      (nfa.relabel square).determinize = nfa.determinize.relabel (OrderedSet.image square) ∧
      (nfa.relabel square).determinize.renumber = nfa.determinize.renumber ∧
      (nfa.relabel square).determinize.renumber.listing = nfa.determinize.renumber.listing ∧
      (nfa.relabel square).determinize.states.toList.map (·.toList) = [[], [0, 1], [4]] ∧
      ((nfa.relabel square).determinize.target? {0, 1} 'a').map (·.toList) = some [4] := by
  intro nfa square
  have built : nfa.Built :=
    .markAccepting 2 (.addMove 5 (.char 'b') 2 (.addMove 1 (.char 'a') 2
      (.addMove 1 .epsilon 0 (.addMove 0 .epsilon 1 (.singleton 0)))))
  have cases : ∀ state, state ∈ nfa.states → state = 0 ∨ state = 1 ∨ state = 2 ∨ state = 5 := by
    intro state member
    simp only [nfa, mem_states_markAccepting, mem_states_addMove, mem_states_singleton] at member
    omega
  have increasing : OrderedSet.IncreasingOn square nfa.states := by
    intro first second member other
    rcases cases first member with rfl | rfl | rfl | rfl <;>
      rcases cases second other with rfl | rfl | rfl | rfl <;> decide
  have injective := increasing.injectiveOn
  obtain ⟨renamed, numbered⟩ := built.determinize_relabel injective
  obtain ⟨same, listing⟩ := numbered increasing
  exact ⟨built, injective, increasing, rfl, renamed, same, listing, by decide, by decide⟩

end PatternAutomata.Nfa
