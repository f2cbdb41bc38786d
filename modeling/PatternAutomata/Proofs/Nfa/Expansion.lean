import PatternAutomata.Proofs.Dfa.Rows
import PatternAutomata.Proofs.Nfa.Worklist

/-!
# The automaton of the expanded subsets

Expanding a subset adds it, its moves and their targets.  After the expansion of several subsets
the automaton has a move exactly for every expanded subset and every character of the alphabet.
-/

namespace PatternAutomata.Nfa

variable {S : Type} [Ord S] [Std.TransOrd S]

/-- Adds a subset, as accepting if it meets the accepting states, and the moves from it. -/
def expandSubset (nfa : Nfa S) (dfa : Dfa (OrderedSet S)) (subset : OrderedSet S) :
    Dfa (OrderedSet S) :=
  (if OrderedSet.meets subset nfa.accepting then dfa.markAccepting subset else dfa).setMoves
    subset (nfa.step subset) nfa.alphabet.toList

/-- The deterministic automaton after the expansion of the given subsets. -/
structure ExpandedBy (nfa : Nfa S) (subsets : List (OrderedSet S)) (dfa : Dfa (OrderedSet S)) :
    Prop where
  start_eq : dfa.start = nfa.startSubset
  missing_eq : dfa.missing = .stay
  alphabet_eq : dfa.alphabet = nfa.alphabet
  mem_accepting : ∀ subset, subset ∈ dfa.accepting ↔
    subset ∈ subsets ∧ OrderedSet.meets subset nfa.accepting = true
  mem_states : ∀ subset, subset ∈ dfa.states → subset = nfa.startSubset ∨ subset ∈ subsets ∨
    ∃ source c, source ∈ subsets ∧ c ∈ nfa.alphabet ∧ subset = nfa.step source c
  start_mem : nfa.startSubset ∈ dfa.states
  step_mem : ∀ source c, source ∈ subsets → c ∈ nfa.alphabet → nfa.step source c ∈ dfa.states
  target?_of_mem : ∀ source c, source ∈ subsets → c ∈ nfa.alphabet →
    dfa.target? source c = some (nfa.step source c)
  target?_of_not_mem : ∀ source c, source ∉ subsets ∨ c ∉ nfa.alphabet →
    dfa.target? source c = none

theorem addExpansion_subsetRow (nfa : Nfa S) (dfa : Dfa (OrderedSet S)) (subset : OrderedSet S) :
    nfa.addExpansion dfa ⟨subset, nfa.subsetRow subset⟩ = nfa.expandSubset dfa subset := by
  rw [addExpansion, subsetRow, List.foldl_map]
  rfl

section Expansion

variable {nfa : Nfa S} {dfa : Dfa (OrderedSet S)} {subset other : OrderedSet S} {c : Char}

@[simp] theorem start_expandSubset : (nfa.expandSubset dfa subset).start = dfa.start := by
  rw [expandSubset, Dfa.start_setMoves]
  split <;> rfl

@[simp] theorem missing_expandSubset : (nfa.expandSubset dfa subset).missing = dfa.missing := by
  rw [expandSubset, Dfa.missing_setMoves]
  split <;> rfl

theorem mem_alphabet_expandSubset :
    c ∈ (nfa.expandSubset dfa subset).alphabet ↔ c ∈ dfa.alphabet ∨ c ∈ nfa.alphabet := by
  rw [expandSubset, Dfa.mem_alphabet_setMoves, Std.ExtTreeSet.mem_toList]
  split <;> rfl

variable [Std.LawfulEqOrd S]

theorem built_expandSubset (built : dfa.Built) : (nfa.expandSubset dfa subset).Built := by
  rw [expandSubset]
  split
  · exact Dfa.Built.setMoves (.markAccepting subset built)
  · exact Dfa.Built.setMoves built

theorem mem_accepting_expandSubset :
    other ∈ (nfa.expandSubset dfa subset).accepting ↔
      other ∈ dfa.accepting ∨ other = subset ∧ OrderedSet.meets subset nfa.accepting = true := by
  rw [expandSubset, Dfa.accepting_setMoves]
  split
  · rename_i meets
    change other ∈ dfa.accepting.insert subset ↔ _
    rw [OrderedSet.mem_insert, or_comm]
    simp [meets]
  · simp_all

theorem mem_states_expandSubset
    (member : other ∈ (nfa.expandSubset dfa subset).states) :
    other ∈ dfa.states ∨ other = subset ∨ ∃ c, c ∈ nfa.alphabet ∧ other = nfa.step subset c := by
  rw [expandSubset, Dfa.mem_states_setMoves] at member
  rcases member with marked | ⟨c, among, origin | goal⟩
  · split at marked
    · rcases OrderedSet.mem_insert.mp marked with same | old
      · exact .inr (.inl same)
      · exact .inl old
    · exact .inl marked
  · exact .inr (.inl origin)
  · exact .inr (.inr ⟨c, Std.ExtTreeSet.mem_toList.mp among, goal⟩)

theorem mem_states_expandSubset_of_mem (member : other ∈ dfa.states) :
    other ∈ (nfa.expandSubset dfa subset).states := by
  rw [expandSubset, Dfa.mem_states_setMoves]
  split
  · exact .inl (OrderedSet.mem_insert.mpr (.inr member))
  · exact .inl member

theorem step_mem_states_expandSubset (char : c ∈ nfa.alphabet) :
    nfa.step subset c ∈ (nfa.expandSubset dfa subset).states := by
  rw [expandSubset, Dfa.mem_states_setMoves]
  exact .inr ⟨c, Std.ExtTreeSet.mem_toList.mpr char, .inr rfl⟩

theorem target?_expandSubset_of_mem (char : c ∈ nfa.alphabet) :
    (nfa.expandSubset dfa subset).target? subset c = some (nfa.step subset c) :=
  Dfa.target?_setMoves_of_mem (Std.ExtTreeSet.mem_toList.mpr char)

theorem target?_expandSubset_of_ne (different : subset ≠ other ∨ c ∉ nfa.alphabet) :
    (nfa.expandSubset dfa subset).target? other c = dfa.target? other c := by
  have apart : subset ≠ other ∨ c ∉ nfa.alphabet.toList :=
    different.imp_right fun absent member => absent (Std.ExtTreeSet.mem_toList.mp member)
  rw [expandSubset, Dfa.target?_setMoves_of_ne apart]
  split <;> rfl

end Expansion

variable [Std.LawfulEqOrd S]

namespace ExpandedBy

theorem initial (nfa : Nfa S) :
    nfa.ExpandedBy [] (.singleton nfa.alphabet nfa.startSubset) where
  start_eq := rfl
  missing_eq := rfl
  alphabet_eq := rfl
  mem_accepting := by simp [Dfa.singleton]
  mem_states _ member := .inl (OrderedSet.mem_singleton.mp member)
  start_mem := OrderedSet.mem_singleton.mpr rfl
  step_mem _ _ member := absurd member List.not_mem_nil
  target?_of_mem _ _ member := absurd member List.not_mem_nil
  target?_of_not_mem _ _ _ := Dfa.target?_singleton

theorem expand
    {nfa : Nfa S} {subsets : List (OrderedSet S)} {dfa : Dfa (OrderedSet S)}
    (expanded : nfa.ExpandedBy subsets dfa) (subset : OrderedSet S) :
    nfa.ExpandedBy (subsets ++ [subset]) (nfa.expandSubset dfa subset) := by
  constructor
  · rw [start_expandSubset, expanded.start_eq]
  · rw [missing_expandSubset, expanded.missing_eq]
  · apply Std.ExtTreeSet.ext_mem
    intro c
    rw [mem_alphabet_expandSubset, expanded.alphabet_eq, or_self]
  · intro other
    rw [mem_accepting_expandSubset, expanded.mem_accepting, List.mem_append, List.mem_singleton,
      or_and_right]
    apply or_congr_right
    apply and_congr_right
    intro same
    rw [same]
  · intro other member
    rcases mem_states_expandSubset member with old | same | ⟨c, char, rfl⟩
    · rcases expanded.mem_states other old with start | earlier | ⟨source, c, among, char, rfl⟩
      · exact .inl start
      · exact .inr (.inl (List.mem_append_left _ earlier))
      · exact .inr (.inr ⟨source, c, List.mem_append_left _ among, char, rfl⟩)
    · exact .inr (.inl (List.mem_append_right _ (List.mem_singleton.mpr same)))
    · exact .inr (.inr ⟨subset, c, by simp, char, rfl⟩)
  · exact mem_states_expandSubset_of_mem expanded.start_mem
  · intro source c member char
    rcases List.mem_append.mp member with earlier | last
    · exact mem_states_expandSubset_of_mem (expanded.step_mem source c earlier char)
    · rw [List.mem_singleton.mp last]
      exact step_mem_states_expandSubset char
  · intro source c member char
    by_cases same : subset = source
    · subst same
      exact target?_expandSubset_of_mem char
    · have earlier : source ∈ subsets := by
        rcases List.mem_append.mp member with earlier | last
        · exact earlier
        · exact absurd (List.mem_singleton.mp last).symm same
      rw [target?_expandSubset_of_ne (.inl same)]
      exact expanded.target?_of_mem source c earlier char
  · intro source c absent
    have before : source ∉ subsets ∨ c ∉ nfa.alphabet :=
      absent.imp_left fun outside member => outside (List.mem_append_left _ member)
    have apart : subset ≠ source ∨ c ∉ nfa.alphabet := by
      apply absent.imp_left
      intro outside same
      exact outside (List.mem_append_right _ (List.mem_singleton.mpr same.symm))
    rw [target?_expandSubset_of_ne apart]
    exact expanded.target?_of_not_mem source c before

theorem foldl (nfa : Nfa S) (subsets : List (OrderedSet S)) :
    nfa.ExpandedBy subsets
      (subsets.foldl nfa.expandSubset (.singleton nfa.alphabet nfa.startSubset)) := by
  induction subsets using List.reverseRecOn with
  | nil => exact .initial nfa
  | append_singleton subsets subset ih =>
      rw [List.foldl_append]
      exact ih.expand subset

end ExpandedBy

theorem determinize_eq_foldl (nfa : Nfa S) :
    nfa.determinize =
      nfa.discoveries.foldl nfa.expandSubset (.singleton nfa.alphabet nfa.startSubset) := by
  have rows := (surveyInvariant_survey nfa).row_eq
  have expanded : nfa.survey.expanded =
      nfa.discoveries.map fun subset => ⟨subset, nfa.subsetRow subset⟩ := by
    rw [discoveries, List.map_map]
    conv_lhs => rw [← List.map_id nfa.survey.expanded]
    apply List.map_congr_left
    intro expansion member
    exact congrArg (Expansion.mk expansion.subset) (rows expansion member)
  rw [determinize, dfaOf, expanded, List.foldl_map]
  congr 1
  funext dfa subset
  exact nfa.addExpansion_subsetRow dfa subset

theorem built_determinize (nfa : Nfa S) : nfa.determinize.Built := by
  rw [determinize_eq_foldl]
  exact List.foldlRecOn nfa.discoveries _ (.singleton nfa.alphabet nfa.startSubset)
    fun _ built _ _ => built_expandSubset built

theorem expandedBy_determinize (nfa : Nfa S) :
    nfa.ExpandedBy nfa.discoveries nfa.determinize := by
  rw [determinize_eq_foldl]
  exact .foldl nfa nfa.discoveries

theorem target?_determinize_iff {nfa : Nfa S} {subset target : OrderedSet S} {c : Char} :
    nfa.determinize.target? subset c = some target ↔
      subset ∈ nfa.discoveries ∧ c ∈ nfa.alphabet ∧ nfa.step subset c = target := by
  have expanded := expandedBy_determinize nfa
  by_cases among : subset ∈ nfa.discoveries ∧ c ∈ nfa.alphabet
  · rw [expanded.target?_of_mem subset c among.1 among.2]
    simp [among]
  · rw [expanded.target?_of_not_mem subset c (not_and_or.mp among), ← and_assoc]
    simp [among]

end PatternAutomata.Nfa
