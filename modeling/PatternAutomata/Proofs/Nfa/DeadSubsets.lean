import PatternAutomata.Proofs.Nfa.Determinization

/-!
# Dead subsets

If every state of an automaton leads on to an accepting one, only the empty subset is dead: nothing
is accepted from it, and from every other subset something is.
-/

namespace PatternAutomata

/-- The empty subset is the only dead state.  It is entered by the words that begin no accepted
word, and never left. -/
structure Dfa.OnlyEmptyIsDead {S : Type} [Ord S] [Std.TransOrd S] (dfa : Dfa (OrderedSet S)) :
    Prop where
  follow_start_iff : ∀ word, (∀ c, c ∈ word → c ∈ dfa.alphabet) →
    (dfa.follow dfa.start word = some ∅ ↔
      ∀ accepted, dfa.accepts accepted = true → ¬word <+: accepted)
  leads_on : ∀ subset, subset ∈ dfa.states → subset ≠ ∅ →
    ∃ word final, dfa.follow subset word = some final ∧ dfa.isAccepting final = true
  not_left : ∅ ∈ dfa.states → ∀ word, (∀ c, c ∈ word → c ∈ dfa.alphabet) →
    dfa.follow ∅ word = some ∅

namespace Nfa

variable {S : Type} [Ord S] [Std.TransOrd S] {nfa : Nfa S} {word : List Char}

/-- From every state a run leads to an accepting state. -/
def LeadsOn (nfa : Nfa S) : Prop :=
  ∀ state, state ∈ nfa.states →
    ∃ word final, nfa.Run state word final ∧ final ∈ nfa.accepting

theorem subsetAfter_append (before word : List Char) :
    nfa.subsetAfter (before ++ word) = word.foldl nfa.step (nfa.subsetAfter before) :=
  List.foldl_append

variable [Std.LawfulEqOrd S]

/-- If all states lead on, a word leads to no state at all only if no accepted word begins with it. -/
theorem subsetAfter_eq_empty_iff (closed : nfa.Closed) (leadsOn : nfa.LeadsOn) :
    nfa.subsetAfter word = ∅ ↔ ∀ accepted, nfa.Accepts accepted → ¬word <+: accepted := by
  constructor
  · intro empty accepted accepts begins
    obtain ⟨rest, rfl⟩ := begins
    obtain ⟨final, _, run⟩ := accepts
    obtain ⟨middle, upTo, _⟩ := Run.append_iff.mp run
    have member := (mem_subsetAfter closed).mpr upTo
    rw [empty] at member
    exact Std.ExtTreeSet.not_mem_empty member
  · intro dead
    rw [Std.ExtTreeSet.eq_empty_iff_forall_not_mem]
    intro state member
    have run := (mem_subsetAfter closed).mp member
    obtain ⟨rest, final, onwards, accepting⟩ :=
      leadsOn state (closed.mem_of_run run closed.start_mem)
    have accepts : nfa.Accepts (word ++ rest) := ⟨final, accepting, run.trans onwards⟩
    exact dead (word ++ rest) accepts (List.prefix_append word rest)

theorem foldl_step_empty (closed : nfa.Closed) : word.foldl nfa.step ∅ = ∅ := by
  induction word with
  | nil => rfl
  | cons c word ih => rw [List.foldl_cons, step_empty closed, ih]

/-- A subset with a member leads to an accepting subset, along the run of the member. -/
theorem exists_follow_of_ne_empty
    (closed : nfa.Closed) (leadsOn : nfa.LeadsOn) {subset : OrderedSet S}
    (member : subset ∈ nfa.determinize.states) (nonempty : subset ≠ ∅) :
    ∃ word final, nfa.determinize.follow subset word = some final ∧
      nfa.determinize.isAccepting final = true := by
  have discovered := (mem_states_determinize closed).mp member
  obtain ⟨before, spellable, rfl⟩ := (mem_discoveries closed).mp discovered
  obtain ⟨state, among⟩ := OrderedSet.exists_mem_of_ne_empty nonempty
  have run := (mem_subsetAfter closed).mp among
  obtain ⟨word, final, onwards, accepting⟩ :=
    leadsOn state (closed.mem_of_run run closed.start_mem)
  have spellableWord := closed.chars_mem_of_run onwards
  have reached : nfa.subsetAfter (before ++ word) ∈ nfa.determinize.states := by
    apply (mem_states_determinize closed).mpr
    apply (mem_discoveries closed).mpr
    refine ⟨before ++ word, ?_, rfl⟩
    intro c occurs
    exact (List.mem_append.mp occurs).elim (spellable c) (spellableWord c)
  refine ⟨word, nfa.subsetAfter (before ++ word), ?_, ?_⟩
  · rw [subsetAfter_append]
    exact follow_determinize closed discovered spellableWord
  · apply (isAccepting_determinize closed reached).mpr
    exact ⟨final, (mem_subsetAfter closed).mpr (run.trans onwards), accepting⟩

theorem LeadsOn.onlyEmptyIsDead_determinize (leadsOn : nfa.LeadsOn) (built : nfa.Built) :
    nfa.determinize.OnlyEmptyIsDead := by
  have closed := built.closed
  have expanded := expandedBy_determinize nfa
  constructor
  · intro word spellable
    rw [expanded.alphabet_eq] at spellable
    have follow : nfa.determinize.follow nfa.determinize.start word =
        some (nfa.subsetAfter word) := by
      rw [expanded.start_eq]
      exact follow_determinize closed (startSubset_mem_discoveries closed) spellable
    rw [follow, Option.some.injEq, subsetAfter_eq_empty_iff closed leadsOn]
    simp only [accepts_determinize closed]
  · intro subset member nonempty
    exact exists_follow_of_ne_empty closed leadsOn member nonempty
  · intro member word spellable
    rw [expanded.alphabet_eq] at spellable
    have discovered := (mem_states_determinize closed).mp member
    rw [follow_determinize closed discovered spellable, foldl_step_empty closed]

end Nfa

end PatternAutomata
