import PatternAutomata.Proofs.Nfa.Determinization

/-!
# The survey ends

The survey takes one subset after the other from its queue, until none is waiting.  It takes no
subset twice, and all of them are sets of states, so there are at most `2 ^ n` to be taken; and what
it has taken in the end is what it has seen, and what the deterministic automaton has for states.
-/

namespace PatternAutomata.Nfa

variable {S : Type} [Ord S] [Std.TransOrd S]

/-- The survey after so many turns of its loop, if the loop would go on even with an empty queue. -/
def surveyAfter (nfa : Nfa S) (count : Nat) : Survey S :=
  nfa.advanceSurvey^[count] (.start nfa.startSubset)

/-- The subsets that have been taken from the queue, in this order. -/
def Survey.taken (survey : Survey S) : List (OrderedSet S) := survey.expanded.map (·.subset)

/-- The subset waits, has been seen, or has been taken from the queue. -/
def Survey.Holds (survey : Survey S) (subset : OrderedSet S) : Prop :=
  subset ∈ survey.waiting ∨ subset ∈ survey.seen ∨ subset ∈ survey.taken

/-- The subset holds only states of the automaton, and no epsilon move leads out of it. -/
structure ClosedSubset (nfa : Nfa S) (subset : OrderedSet S) : Prop where
  state_mem : ∀ state, state ∈ subset → state ∈ nfa.states
  target_mem : ∀ source target, source ∈ subset → nfa.HasMove source .epsilon target →
    target ∈ subset

/-- A run with fuel is some turns of the loop, none of them with an empty queue. -/
theorem exists_iterate_eq_runSurvey (nfa : Nfa S) (fuel : Nat) (survey : Survey S) :
    ∃ count, count ≤ fuel ∧ nfa.advanceSurvey^[count] survey = nfa.runSurvey fuel survey ∧
      ∀ earlier, earlier < count → (nfa.advanceSurvey^[earlier] survey).waiting ≠ [] := by
  induction fuel generalizing survey with
  | zero => exact ⟨0, Nat.le_refl 0, rfl, fun earlier before => absurd before (Nat.not_lt_zero _)⟩
  | succ fuel ih =>
      rw [runSurvey]
      split
      · exact ⟨0, Nat.zero_le _, rfl, fun earlier before => absurd before (Nat.not_lt_zero _)⟩
      · rename_i nonempty
        obtain ⟨count, within, same, goesOn⟩ := ih (nfa.advanceSurvey survey)
        refine ⟨count + 1, Nat.succ_le_succ within, same, ?_⟩
        intro earlier before
        cases earlier with
        | zero => exact fun empty => nonempty (List.isEmpty_iff.mpr empty)
        | succ earlier => exact goesOn earlier (Nat.lt_of_succ_lt_succ before)

theorem surveyAfter_succ (nfa : Nfa S) (count : Nat) :
    nfa.surveyAfter (count + 1) = nfa.advanceSurvey (nfa.surveyAfter count) :=
  Function.iterate_succ_apply' ..

/-- As long as subsets are waiting, each turn takes one. -/
theorem length_taken_surveyAfter
    {nfa : Nfa S} {count : Nat}
    (goesOn : ∀ earlier, earlier < count → (nfa.surveyAfter earlier).waiting ≠ []) :
    (nfa.surveyAfter count).taken.length = count := by
  rw [Survey.taken, List.length_map]
  induction count with
  | zero => rfl
  | succ count ih =>
      have before := ih fun earlier less => goesOn earlier (Nat.lt_succ_of_lt less)
      rw [surveyAfter_succ, length_expanded_advanceSurvey nfa (goesOn count count.lt_succ_self),
        before]

namespace SurveyInvariant

variable {nfa : Nfa S} {survey : Survey S} {subset : OrderedSet S}

theorem nodup_taken (invariant : nfa.SurveyInvariant survey) : survey.taken.Nodup :=
  (List.nodup_append.mp invariant.distinct).1

theorem mem_order_of_holds (invariant : nfa.SurveyInvariant survey) (holds : survey.Holds subset) :
    subset ∈ survey.order := by
  rcases holds with waits | seen | taken
  · exact List.mem_append_right _ waits
  · exact (invariant.seen_iff subset).mp seen
  · exact List.mem_append_left _ taken

variable [Std.LawfulEqOrd S]

theorem length_taken_le (closed : nfa.Closed) (invariant : nfa.SurveyInvariant survey) :
    survey.taken.length ≤ 2 ^ nfa.states.size := by
  have bound := invariant.length_order_le closed
  rw [Survey.order, List.length_append] at bound
  exact (Nat.le_add_right _ _).trans bound

/-- A discovered subset is where a word leads, and runs go on along epsilon moves. -/
theorem closedSubset (closed : nfa.Closed) (invariant : nfa.SurveyInvariant survey)
    (discovered : subset ∈ survey.order) : nfa.ClosedSubset subset where
  state_mem _ member := invariant.mem_states closed discovered member
  target_mem source target member move := by
    obtain ⟨word, _, rfl⟩ := invariant.reached subset discovered
    rw [mem_subsetAfter closed] at member ⊢
    have run := member.trans (.skip move (.stop target))
    rwa [List.append_nil] at run

end SurveyInvariant

variable [Std.LawfulEqOrd S]

theorem surveyInvariant_surveyAfter (nfa : Nfa S) (count : Nat) :
    nfa.SurveyInvariant (nfa.surveyAfter count) := by
  induction count with
  | zero => exact .initial nfa
  | succ count ih =>
      rw [surveyAfter_succ]
      exact ih.advance

theorem states_determinize_eq_seen {nfa : Nfa S} (closed : nfa.Closed) :
    nfa.determinize.states = nfa.survey.seen := by
  apply Std.ExtTreeSet.ext_mem
  intro subset
  rw [mem_states_determinize closed, (surveyInvariant_survey nfa).seen_iff, order_survey closed]

/-- The survey ends by itself, and has then done everything once.  What it holds between two turns
are closed subsets; a subset that is found in the middle of a turn still waits at its end. -/
structure IsExhaustedOnce (nfa : Nfa S) : Prop where
  nodup_taken : ∀ count, (nfa.surveyAfter count).taken.Nodup
  length_taken_le : ∀ count, (nfa.surveyAfter count).taken.length ≤ 2 ^ nfa.states.size
  closedSubset : ∀ count subset, (nfa.surveyAfter count).Holds subset → nfa.ClosedSubset subset
  exists_end : ∃ count, count ≤ 2 ^ nfa.states.size ∧ nfa.surveyAfter count = nfa.survey ∧
    (∀ earlier, earlier < count → (nfa.surveyAfter earlier).waiting ≠ []) ∧
    nfa.survey.waiting = [] ∧ nfa.survey.taken.length = count
  mem_taken_iff : ∀ subset, subset ∈ nfa.survey.taken ↔ subset ∈ nfa.survey.seen
  states_eq : nfa.determinize.states = nfa.survey.seen

/-- Surveying the subsets of whatever the operations build ends, without repeating work. -/
theorem Built.isExhaustedOnce {nfa : Nfa S} (built : nfa.Built) : nfa.IsExhaustedOnce := by
  have closed := built.closed
  constructor
  · intro count
    exact (surveyInvariant_surveyAfter nfa count).nodup_taken
  · intro count
    exact (surveyInvariant_surveyAfter nfa count).length_taken_le closed
  · intro count subset holds
    have invariant := surveyInvariant_surveyAfter nfa count
    exact invariant.closedSubset closed (invariant.mem_order_of_holds holds)
  · obtain ⟨count, within, same, goesOn⟩ :=
      exists_iterate_eq_runSurvey nfa (2 ^ nfa.states.size) (.start nfa.startSubset)
    have ended : nfa.surveyAfter count = nfa.survey := same
    have length := length_taken_surveyAfter goesOn
    rw [ended] at length
    exact ⟨count, within, ended, goesOn, waiting_survey closed, length⟩
  · intro subset
    rw [(surveyInvariant_survey nfa).seen_iff, order_survey closed]
    rfl
  · exact states_determinize_eq_seen closed

/-- A case with an epsilon cycle, an epsilon loop and a character that leads back. -/
theorem isExhaustedOnce_cycle :
    let nfa := (((((singleton 0).addMove 0 .epsilon 1).addMove 1 .epsilon 0).addMove
      1 .epsilon 1).addMove 1 (.char 'a') 2).addMove 2 (.char 'b') 0
    nfa.Built ∧ nfa.IsExhaustedOnce ∧ nfa.survey.taken.length = 3 := by
  intro nfa
  have built : nfa.Built :=
    .addMove 2 (.char 'b') 0 (.addMove 1 (.char 'a') 2 (.addMove 1 .epsilon 1
      (.addMove 1 .epsilon 0 (.addMove 0 .epsilon 1 (.singleton 0)))))
  exact ⟨built, built.isExhaustedOnce, by decide⟩

end PatternAutomata.Nfa
