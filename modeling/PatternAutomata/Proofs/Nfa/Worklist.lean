import Mathlib.Data.Finset.Powerset
import PatternAutomata.Nfa.Subsets
import PatternAutomata.Proofs.Nfa.EpsilonClosure

/-!
# The survey of subsets

The survey reaches exactly the subsets to which words lead from the start, and expands each of them
once.  What carries this is the order of discovery, the expanded subsets followed by the waiting
ones: it never holds a subset twice, it only ever grows at its end, and whatever an expanded subset
leads to is in it.
-/

namespace PatternAutomata

/-- There are at most `2 ^ n` distinct subsets of a set with `n` members. -/
theorem OrderedSet.length_le_two_pow
    {S : Type} [Ord S] [Std.TransOrd S] [Std.LawfulEqOrd S]
    {states : OrderedSet S} {subsets : List (OrderedSet S)}
    (distinct : subsets.Nodup)
    (within : ∀ subset, subset ∈ subsets → ∀ state, state ∈ subset → state ∈ states) :
    subsets.length ≤ 2 ^ states.size := by
  classical
  let members : OrderedSet S → Finset S := fun subset => subset.toList.toFinset
  have mem_members : ∀ {subset : OrderedSet S} {state : S},
      state ∈ members subset ↔ state ∈ subset := by
    intro subset state
    rw [List.mem_toFinset, Std.ExtTreeSet.mem_toList]
  have injective : Function.Injective members := by
    intro first second equal
    apply Std.ExtTreeSet.ext_mem
    intro state
    rw [← mem_members, equal, mem_members]
  have included : subsets.toFinset.image members ⊆ (members states).powerset := by
    intro image member
    obtain ⟨subset, among, rfl⟩ := Finset.mem_image.mp member
    apply Finset.mem_powerset.mpr
    intro state inside
    exact mem_members.mpr
      (within subset (List.mem_toFinset.mp among) state (mem_members.mp inside))
  calc
    subsets.length = subsets.toFinset.card := (List.toFinset_card_of_nodup distinct).symm
    _ = (subsets.toFinset.image members).card :=
      (Finset.card_image_of_injective _ injective).symm
    _ ≤ (members states).powerset.card := Finset.card_le_card included
    _ = 2 ^ (members states).card := Finset.card_powerset _
    _ = 2 ^ states.size := by
      rw [List.toFinset_card_of_nodup nodup_toList, Std.ExtTreeSet.length_toList]

namespace Nfa

variable {S : Type} [Ord S] [Std.TransOrd S]

namespace Survey

/-- All subsets discovered so far, in the order of their discovery. -/
def order (survey : Survey S) : List (OrderedSet S) :=
  survey.expanded.map (·.subset) ++ survey.waiting

/-- No subset has been discovered twice, and the subsets seen are those discovered. -/
structure Consistent (survey : Survey S) : Prop where
  distinct : survey.order.Nodup
  seen_iff : ∀ subset, subset ∈ survey.seen ↔ subset ∈ survey.order

@[simp] theorem expanded_discover (survey : Survey S) (subset : OrderedSet S) :
    (survey.discover subset).expanded = survey.expanded := by
  rw [discover]
  split <;> rfl

@[simp] theorem expanded_foldl_discover (survey : Survey S) (targets : List (OrderedSet S)) :
    (targets.foldl discover survey).expanded = survey.expanded := by
  induction targets generalizing survey with
  | nil => rfl
  | cons target targets ih => rw [List.foldl_cons, ih, expanded_discover]

/-- A subset that has been discovered before changes nothing, and another one is appended. -/
theorem Consistent.order_discover
    {survey : Survey S} (consistent : survey.Consistent) (subset : OrderedSet S) :
    (survey.discover subset).order = survey.order ∧ subset ∈ survey.order ∨
      (survey.discover subset).order = survey.order ++ [subset] ∧ subset ∉ survey.order := by
  rw [discover, ← consistent.seen_iff, Std.ExtTreeSet.mem_iff_contains]
  split
  · exact .inl ⟨rfl, ‹_›⟩
  · exact .inr ⟨(List.append_assoc ..).symm, ‹_›⟩

theorem Consistent.mem_order_discover
    {survey : Survey S} {subset other : OrderedSet S} (consistent : survey.Consistent) :
    other ∈ (survey.discover subset).order ↔ other ∈ survey.order ∨ other = subset := by
  rcases consistent.order_discover subset with ⟨same, member⟩ | ⟨grown, _⟩
  · rw [same]
    constructor
    · exact .inl
    · intro either
      rcases either with old | rfl
      · exact old
      · exact member
  · rw [grown, List.mem_append, List.mem_singleton]

variable [Std.LawfulEqOrd S]

namespace Consistent

theorem start (subset : OrderedSet S) : (Survey.start subset).Consistent where
  distinct := List.nodup_singleton subset
  seen_iff _ := OrderedSet.mem_singleton.trans List.mem_singleton.symm

theorem discover
    {survey : Survey S} (consistent : survey.Consistent) (subset : OrderedSet S) :
    (survey.discover subset).Consistent := by
  rw [Survey.discover]
  split
  · exact consistent
  · rename_i unseen
    have absent : subset ∉ survey.order := fun member =>
      unseen (Std.ExtTreeSet.mem_iff_contains.mp ((consistent.seen_iff subset).mpr member))
    have grown : order { survey with
        waiting := survey.waiting ++ [subset], seen := survey.seen.insert subset } =
        survey.order ++ [subset] := (List.append_assoc ..).symm
    constructor
    · rw [grown]
      exact List.nodup_append.mpr ⟨consistent.distinct, List.nodup_singleton subset,
        fun other member _ only equal => absent (by simp_all)⟩
    · intro other
      rw [grown, List.mem_append, List.mem_singleton, ← consistent.seen_iff, or_comm]
      exact OrderedSet.mem_insert

theorem foldl_discover
    {survey : Survey S} (consistent : survey.Consistent) (targets : List (OrderedSet S)) :
    (targets.foldl Survey.discover survey).Consistent := by
  induction targets generalizing survey with
  | nil => exact consistent
  | cons target targets ih => exact ih (consistent.discover target)

theorem mem_order_foldl_discover
    {survey : Survey S} {targets : List (OrderedSet S)} {other : OrderedSet S}
    (consistent : survey.Consistent) :
    other ∈ (targets.foldl Survey.discover survey).order ↔
      other ∈ survey.order ∨ other ∈ targets := by
  induction targets generalizing survey with
  | nil => simp
  | cons target targets ih =>
      rw [List.foldl_cons, ih (consistent.discover target), consistent.mem_order_discover,
        List.mem_cons, or_assoc]

end Consistent

end Survey

theorem length_expanded_advanceSurvey
    (nfa : Nfa S) {survey : Survey S} (nonempty : survey.waiting ≠ []) :
    (nfa.advanceSurvey survey).expanded.length = survey.expanded.length + 1 := by
  rw [advanceSurvey]
  split
  · exact absurd ‹_› nonempty
  · rw [Survey.expanded_foldl_discover, List.length_append, List.length_singleton]

/-- The subset that a word leads to from the start. -/
def subsetAfter (nfa : Nfa S) (word : List Char) : OrderedSet S :=
  word.foldl nfa.step nfa.startSubset

/-- What holds between the expansions of a survey. -/
structure SurveyInvariant (nfa : Nfa S) (survey : Survey S) : Prop extends
    survey.Consistent where
  start_mem : nfa.startSubset ∈ survey.order
  reached : ∀ subset, subset ∈ survey.order →
    ∃ word, (∀ c, c ∈ word → c ∈ nfa.alphabet) ∧ nfa.subsetAfter word = subset
  row_eq : ∀ expansion, expansion ∈ survey.expanded →
    expansion.row = nfa.subsetRow expansion.subset
  covered : ∀ expansion, expansion ∈ survey.expanded → ∀ c, c ∈ nfa.alphabet →
    nfa.step expansion.subset c ∈ survey.order

theorem subsetAfter_concat (nfa : Nfa S) (word : List Char) (c : Char) :
    nfa.subsetAfter (word ++ [c]) = nfa.step (nfa.subsetAfter word) c := by
  simp [subsetAfter]

theorem mem_subsetRow
    {nfa : Nfa S} {subset target : OrderedSet S} :
    target ∈ (nfa.subsetRow subset).map (·.2) ↔
      ∃ c, c ∈ nfa.alphabet ∧ nfa.step subset c = target := by
  simp [subsetRow, Std.ExtTreeSet.mem_toList]

namespace SurveyInvariant

variable [Std.LawfulEqOrd S]

theorem initial (nfa : Nfa S) : nfa.SurveyInvariant (.start nfa.startSubset) where
  toConsistent := .start nfa.startSubset
  start_mem := List.mem_singleton.mpr rfl
  reached subset member := by
    refine ⟨[], ?_, (List.mem_singleton.mp member).symm⟩
    simp
  row_eq := by simp [Survey.start]
  covered := by simp [Survey.start]

theorem advance
    {nfa : Nfa S} {survey : Survey S} (invariant : nfa.SurveyInvariant survey) :
    nfa.SurveyInvariant (nfa.advanceSurvey survey) := by
  rw [advanceSurvey]
  split
  · exact invariant
  rename_i subset waiting queue
  -- Taking the subset from the queue leaves the order of discovery as it is.
  let taken : Survey S :=
    { survey with
      expanded := survey.expanded ++ [⟨subset, nfa.subsetRow subset⟩]
      waiting := waiting }
  have sameOrder : taken.order = survey.order := by
    simp [taken, Survey.order, queue]
  have consistent : taken.Consistent :=
    ⟨sameOrder ▸ invariant.distinct, fun other => sameOrder ▸ invariant.seen_iff other⟩
  have mem_order : ∀ {other},
      other ∈ (((nfa.subsetRow subset).map (·.2)).foldl Survey.discover taken).order ↔
        other ∈ survey.order ∨ ∃ c, c ∈ nfa.alphabet ∧ nfa.step subset c = other := by
    intro other
    rw [consistent.mem_order_foldl_discover, sameOrder, mem_subsetRow]
  have current : subset ∈ survey.order := by
    simp [Survey.order, queue]
  refine ⟨consistent.foldl_discover _, mem_order.mpr (.inl invariant.start_mem), ?_, ?_, ?_⟩
  · intro other member
    rcases mem_order.mp member with old | ⟨c, char, rfl⟩
    · exact invariant.reached other old
    · obtain ⟨word, spellable, rfl⟩ := invariant.reached subset current
      refine ⟨word ++ [c], ?_, nfa.subsetAfter_concat word c⟩
      intro d among
      rcases List.mem_append.mp among with earlier | last
      · exact spellable d earlier
      · exact List.mem_singleton.mp last ▸ char
  · intro expansion member
    rw [Survey.expanded_foldl_discover] at member
    rcases List.mem_append.mp member with old | new
    · exact invariant.row_eq expansion old
    · rw [List.mem_singleton.mp new]
  · intro expansion member c char
    rw [Survey.expanded_foldl_discover] at member
    rw [mem_order]
    rcases List.mem_append.mp member with old | new
    · exact .inl (invariant.covered expansion old c char)
    · rw [List.mem_singleton.mp new]
      exact .inr ⟨c, char, rfl⟩

theorem run
    {nfa : Nfa S} {survey : Survey S} (invariant : nfa.SurveyInvariant survey) (fuel : Nat) :
    nfa.SurveyInvariant (nfa.runSurvey fuel survey) := by
  induction fuel generalizing survey with
  | zero => exact invariant
  | succ fuel ih =>
      rw [runSurvey]
      split
      · exact invariant
      · exact ih invariant.advance

end SurveyInvariant

variable [Std.LawfulEqOrd S]

/-- A word leads to the states at which the runs on it end. -/
theorem mem_subsetAfter
    {nfa : Nfa S} (closed : nfa.Closed) {word : List Char} {state : S} :
    state ∈ nfa.subsetAfter word ↔ nfa.Run nfa.start word state := by
  induction word using List.reverseRecOn generalizing state with
  | nil => exact (mem_closure closed).trans Run.nil_iff.symm
  | append_singleton word c ih =>
      rw [subsetAfter_concat, mem_step closed, Run.concat_iff]
      simp only [ih]

namespace SurveyInvariant

theorem mem_states
    {nfa : Nfa S} {survey : Survey S} {subset : OrderedSet S} {state : S}
    (closed : nfa.Closed) (invariant : nfa.SurveyInvariant survey)
    (discovered : subset ∈ survey.order) (member : state ∈ subset) :
    state ∈ nfa.states := by
  obtain ⟨word, _, rfl⟩ := invariant.reached subset discovered
  exact closed.mem_of_run ((mem_subsetAfter closed).mp member) closed.start_mem

theorem length_order_le
    {nfa : Nfa S} {survey : Survey S}
    (closed : nfa.Closed) (invariant : nfa.SurveyInvariant survey) :
    survey.order.length ≤ 2 ^ nfa.states.size :=
  OrderedSet.length_le_two_pow invariant.distinct fun _ discovered _ member =>
    invariant.mem_states closed discovered member

/-- Every expansion uses up one of at most `2 ^ n` subsets, so the queue runs empty. -/
theorem waiting_runSurvey
    {nfa : Nfa S} {survey : Survey S} {fuel : Nat}
    (closed : nfa.Closed) (invariant : nfa.SurveyInvariant survey)
    (enough : 2 ^ nfa.states.size ≤ fuel + survey.expanded.length) :
    (nfa.runSurvey fuel survey).waiting = [] := by
  induction fuel generalizing survey with
  | zero =>
      have bound := invariant.length_order_le closed
      rw [Survey.order, List.length_append, List.length_map] at bound
      have none_waiting : survey.waiting.length = 0 := by omega
      exact List.eq_nil_of_length_eq_zero none_waiting
  | succ fuel ih =>
      rw [runSurvey]
      split
      · exact List.isEmpty_iff.mp ‹_›
      · apply ih invariant.advance
        have grown := nfa.length_expanded_advanceSurvey fun empty =>
          absurd (List.isEmpty_iff.mpr empty) ‹_›
        omega

end SurveyInvariant

theorem surveyInvariant_survey (nfa : Nfa S) : nfa.SurveyInvariant nfa.survey :=
  (SurveyInvariant.initial nfa).run _

theorem waiting_survey {nfa : Nfa S} (closed : nfa.Closed) : nfa.survey.waiting = [] := by
  apply (SurveyInvariant.initial nfa).waiting_runSurvey closed
  exact Nat.le_add_right _ _

theorem order_survey {nfa : Nfa S} (closed : nfa.Closed) :
    nfa.survey.order = nfa.discoveries := by
  rw [Survey.order, waiting_survey closed, List.append_nil, discoveries]

/-- The discovered subsets are those to which the words over the alphabet lead. -/
theorem mem_discoveries
    {nfa : Nfa S} (closed : nfa.Closed) {subset : OrderedSet S} :
    subset ∈ nfa.discoveries ↔
      ∃ word, (∀ c, c ∈ word → c ∈ nfa.alphabet) ∧ nfa.subsetAfter word = subset := by
  have invariant := surveyInvariant_survey nfa
  rw [← order_survey closed]
  constructor
  · exact invariant.reached subset
  · intro leads
    obtain ⟨word, spellable, rfl⟩ := leads
    induction word using List.reverseRecOn with
    | nil => exact invariant.start_mem
    | append_singleton word c ih =>
        have earlier := ih fun d member => spellable d (List.mem_append_left _ member)
        have char : c ∈ nfa.alphabet := spellable c (by simp)
        rw [order_survey closed] at earlier
        obtain ⟨expansion, member, same⟩ := List.mem_map.mp earlier
        rw [subsetAfter_concat, ← same]
        exact invariant.covered expansion member c char

end Nfa

end PatternAutomata
