import PatternAutomata.Dfa.Completion
import PatternAutomata.Proofs.Dfa.Reading
import PatternAutomata.Proofs.Nfa.Expansion

/-!
# Determinization is exact

The deterministic automaton of the subsets is total over the alphabet, and its state after a word is
the set of the states that the given automaton can be in after this word.  Both automata therefore
accept the same words, whatever a missing move would mean.
-/

namespace PatternAutomata.Nfa

variable {S : Type} [Ord S] [Std.TransOrd S] [Std.LawfulEqOrd S]

section Words

variable {nfa : Nfa S} {subset : OrderedSet S} {c : Char} {word : List Char}

theorem startSubset_mem_discoveries (closed : nfa.Closed) :
    nfa.startSubset ∈ nfa.discoveries :=
  (mem_discoveries closed).mpr ⟨[], by simp, rfl⟩

theorem step_mem_discoveries
    (closed : nfa.Closed) (member : subset ∈ nfa.discoveries) (char : c ∈ nfa.alphabet) :
    nfa.step subset c ∈ nfa.discoveries := by
  obtain ⟨word, spellable, rfl⟩ := (mem_discoveries closed).mp member
  apply (mem_discoveries closed).mpr
  refine ⟨word ++ [c], ?_, nfa.subsetAfter_concat word c⟩
  intro d among
  rcases List.mem_append.mp among with earlier | last
  · exact spellable d earlier
  · exact List.mem_singleton.mp last ▸ char

theorem mem_states_determinize (closed : nfa.Closed) :
    subset ∈ nfa.determinize.states ↔ subset ∈ nfa.discoveries := by
  have expanded := expandedBy_determinize nfa
  constructor
  · intro member
    rcases expanded.mem_states subset member with rfl | discovered | ⟨source, c, among, char, rfl⟩
    · exact startSubset_mem_discoveries closed
    · exact discovered
    · exact step_mem_discoveries closed among char
  · intro member
    obtain ⟨word, spellable, rfl⟩ := (mem_discoveries closed).mp member
    induction word using List.reverseRecOn with
    | nil => exact expanded.start_mem
    | append_singleton word c _ =>
        have before : nfa.subsetAfter word ∈ nfa.discoveries :=
          (mem_discoveries closed).mpr
            ⟨word, fun d among => spellable d (List.mem_append_left _ among), rfl⟩
        rw [subsetAfter_concat]
        exact expanded.step_mem _ c before (spellable c (by simp))

/-- Every discovered subset has a move on every character. -/
theorem total_determinize (closed : nfa.Closed) : nfa.determinize.Total := by
  intro subset c member char
  have expanded := expandedBy_determinize nfa
  rw [mem_states_determinize closed] at member
  rw [expanded.alphabet_eq] at char
  rw [expanded.target?_of_mem subset c member char]
  rfl

theorem isAccepting_determinize (closed : nfa.Closed) (member : subset ∈ nfa.determinize.states) :
    nfa.determinize.isAccepting subset = true ↔
      ∃ state, state ∈ subset ∧ state ∈ nfa.accepting := by
  have discovered := (mem_states_determinize closed).mp member
  rw [Dfa.isAccepting, ← Std.ExtTreeSet.mem_iff_contains,
    (expandedBy_determinize nfa).mem_accepting, OrderedSet.meets_iff]
  exact and_iff_right discovered

/-- Following the moves from a discovered subset is stepping through the subsets. -/
theorem follow_determinize
    (closed : nfa.Closed) (member : subset ∈ nfa.discoveries)
    (spellable : ∀ c, c ∈ word → c ∈ nfa.alphabet) :
    nfa.determinize.follow subset word = some (word.foldl nfa.step subset) := by
  induction word generalizing subset with
  | nil => rfl
  | cons c word ih =>
      have char : c ∈ nfa.alphabet := spellable c List.mem_cons_self
      have next := step_mem_discoveries closed member char
      rw [Dfa.follow_cons, (expandedBy_determinize nfa).target?_of_mem _ c member char]
      exact ih next fun d among => spellable d (List.mem_cons_of_mem _ among)

/-- A word leads to an accepting subset exactly if a run on it can end accepting. -/
theorem accepts_withMissing_determinize
    (closed : nfa.Closed) (missing : MissingMove) :
    (nfa.determinize.withMissing missing).accepts word = true ↔ nfa.Accepts word := by
  have expanded := expandedBy_determinize nfa
  by_cases spellable : ∀ c, c ∈ word → c ∈ nfa.alphabet
  · have follows : nfa.determinize.follow nfa.determinize.start word =
        some (nfa.subsetAfter word) := by
      rw [expanded.start_eq]
      exact follow_determinize closed (startSubset_mem_discoveries closed) spellable
    have leads : nfa.subsetAfter word ∈ nfa.determinize.states :=
      (mem_states_determinize closed).mpr ((mem_discoveries closed).mpr ⟨word, spellable, rfl⟩)
    rw [Dfa.accepts_of_follow (expanded.alphabet_eq ▸ spellable) follows]
    apply (isAccepting_determinize closed leads).trans
    constructor
    · intro meets
      obtain ⟨state, member, accepting⟩ := meets
      exact ⟨state, accepting, (mem_subsetAfter closed).mp member⟩
    · intro accepts
      obtain ⟨state, accepting, run⟩ := accepts
      exact ⟨state, (mem_subsetAfter closed).mpr run, accepting⟩
  · constructor
    · intro accepted
      have within : ∀ c ∈ word, c ∈ (nfa.determinize.withMissing missing).alphabet :=
        Dfa.spellable_of_accepts accepted
      apply absurd _ spellable
      rw [← expanded.alphabet_eq]
      exact within
    · intro accepts
      obtain ⟨state, _, run⟩ := accepts
      exact absurd (closed.chars_mem_of_run run) spellable

theorem accepts_determinize (closed : nfa.Closed) :
    nfa.determinize.accepts word = true ↔ nfa.Accepts word := by
  have stays : nfa.determinize.withMissing .stay = nfa.determinize := by
    rw [Dfa.withMissing, ← (expandedBy_determinize nfa).missing_eq]
  rw [← accepts_withMissing_determinize closed .stay, stays]

end Words

/-- The deterministic automaton has the sets of states that the given one can be in as its states,
and moves between them as words do. -/
structure IsSubsetAutomaton (nfa : Nfa S) (dfa : Dfa (OrderedSet S)) : Prop where
  alphabet_eq : dfa.alphabet = nfa.alphabet
  follow_start : ∀ word, (∀ c, c ∈ word → c ∈ nfa.alphabet) →
    ∃ subset, dfa.follow dfa.start word = some subset ∧
      ∀ state, state ∈ subset ↔ nfa.Run nfa.start word state
  reached : ∀ subset, subset ∈ dfa.states →
    ∃ word, (∀ c, c ∈ word → c ∈ nfa.alphabet) ∧ dfa.follow dfa.start word = some subset
  total : ∀ subset c, subset ∈ dfa.states → c ∈ nfa.alphabet →
    ∃ target, target ∈ dfa.states ∧ dfa.target? subset c = some target
  isAccepting_iff : ∀ subset, subset ∈ dfa.states →
    (dfa.isAccepting subset = true ↔ ∃ state, state ∈ subset ∧ state ∈ nfa.accepting)
  accepts_iff : ∀ missing word,
    (dfa.withMissing missing).accepts word = true ↔ nfa.Accepts word

/-- Determinizing whatever the operations build is exact. -/
theorem Built.isSubsetAutomaton_determinize
    {nfa : Nfa S} (built : nfa.Built) :
    nfa.IsSubsetAutomaton nfa.determinize := by
  have closed := built.closed
  have expanded := expandedBy_determinize nfa
  have follow : ∀ word, (∀ c, c ∈ word → c ∈ nfa.alphabet) →
      nfa.determinize.follow nfa.determinize.start word = some (nfa.subsetAfter word) := by
    intro word spellable
    rw [expanded.start_eq]
    exact follow_determinize closed (startSubset_mem_discoveries closed) spellable
  constructor
  · exact expanded.alphabet_eq
  · intro word spellable
    exact ⟨nfa.subsetAfter word, follow word spellable, fun _ => mem_subsetAfter closed⟩
  · intro subset member
    rw [mem_states_determinize closed] at member
    obtain ⟨word, spellable, rfl⟩ := (mem_discoveries closed).mp member
    exact ⟨word, spellable, follow word spellable⟩
  · intro subset c member char
    rw [mem_states_determinize closed] at member
    refine ⟨nfa.step subset c, ?_, expanded.target?_of_mem subset c member char⟩
    exact (mem_states_determinize closed).mpr (step_mem_discoveries closed member char)
  · intro subset member
    exact isAccepting_determinize closed member
  · intro missing word
    exact accepts_withMissing_determinize closed missing

/-- A case with an epsilon cycle, an unreachable state, and a character that only it reads. -/
theorem isSubsetAutomaton_determinize_cycle :
    let nfa := (((((singleton 0).addMove 0 .epsilon 1).addMove 1 .epsilon 0).addMove
      1 (.char 'a') 2).addMove 5 (.char 'b') 2).markAccepting 2
    nfa.Built ∧ nfa.IsSubsetAutomaton nfa.determinize := by
  intro nfa
  have built : nfa.Built :=
    .markAccepting 2 (.addMove 5 (.char 'b') 2 (.addMove 1 (.char 'a') 2
      (.addMove 1 .epsilon 0 (.addMove 0 .epsilon 1 (.singleton 0)))))
  exact ⟨built, built.isSubsetAutomaton_determinize⟩

end PatternAutomata.Nfa
