import PatternAutomata.Proofs.Nfa.Worklist
import PatternAutomata.Text.Shortlex

/-!
# The survey is breadth first

Subsets are discovered in the order of the least words that lead to them.  At any time, also within
the expansion of a subset, whatever has not been discovered yet comes after all that has been: a
word that leads to it either continues a word whose subset still waits, or has a character that the
current expansion has not reached.
-/

namespace PatternAutomata.Nfa

open Text

variable {S : Type} [Ord S] [Std.TransOrd S]

/-- The words over the alphabet that lead from the start to the subset. -/
def access (nfa : Nfa S) (subset : OrderedSet S) : Language Char :=
  {word | (∀ c, c ∈ word → c ∈ nfa.alphabet) ∧ nfa.subsetAfter word = subset}

/-- The least word that leads to the first subset precedes the one that leads to the second. -/
def Before (nfa : Nfa S) (first second : OrderedSet S) : Prop :=
  ∀ word other, IsLeastWord (nfa.access first) word → IsLeastWord (nfa.access second) other →
    Precedes word other

variable {nfa : Nfa S} {subset : OrderedSet S} {word : List Char} {c : Char}

theorem nil_mem_access_startSubset : [] ∈ nfa.access nfa.startSubset :=
  ⟨fun _ member => absurd member List.not_mem_nil, rfl⟩

theorem concat_mem_access (leads : word ∈ nfa.access subset) (char : c ∈ nfa.alphabet) :
    word ++ [c] ∈ nfa.access (nfa.step subset c) := by
  obtain ⟨spellable, rfl⟩ := leads
  exact ⟨List.forall_mem_append.mpr ⟨spellable, List.forall_mem_singleton.mpr char⟩,
    nfa.subsetAfter_concat word c⟩

theorem eq_nil_of_isLeastWord_startSubset (least : IsLeastWord (nfa.access nfa.startSubset) word) :
    word = [] :=
  (least.least [] nil_mem_access_startSubset).resolve_right Precedes.not_nil

/-- A survey whose discoveries all come from the start or from an expansion, and are in the order
of their least words. -/
structure BreadthFirst (nfa : Nfa S) (survey : Survey S) : Prop extends
    nfa.SurveyInvariant survey where
  origin : ∀ subset, subset ∈ survey.order → subset = nfa.startSubset ∨
    ∃ source c, source ∈ survey.expanded.map (·.subset) ∧ c ∈ nfa.alphabet ∧
      nfa.step source c = subset
  ascending : survey.order.Pairwise nfa.Before

/-- The survey while it expands the given subset: the characters whose lookups are done are
discovered. -/
def expanding (nfa : Nfa S) (survey : Survey S) (current : OrderedSet S)
    (waiting : List (OrderedSet S)) (done : List Char) : Survey S :=
  (done.map (nfa.step current)).foldl Survey.discover
    { survey with
      expanded := survey.expanded ++ [⟨current, nfa.subsetRow current⟩]
      waiting := waiting }

/-- The character has been looked up from the source, while a subset is expanded: the source has
been expanded before, or the expansion has reached the character. -/
structure LookedUp (nfa : Nfa S) (survey : Survey S) (current : OrderedSet S) (done : List Char)
    (source : OrderedSet S) (c : Char) : Prop where
  char : c ∈ nfa.alphabet
  reached : source ∈ survey.expanded.map (·.subset) ∨ source = current ∧ c ∈ done

variable {survey : Survey S} {current : OrderedSet S} {waiting : List (OrderedSet S)}
  {done : List Char}

theorem Survey.order_of_waiting (queue : survey.waiting = current :: waiting) :
    survey.order = survey.expanded.map (·.subset) ++ current :: waiting := by
  rw [Survey.order, queue]

theorem expanding_eq_foldl :
    nfa.expanding survey current waiting done =
      (done.map (nfa.step current)).foldl Survey.discover
        (nfa.expanding survey current waiting []) := rfl

theorem expanding_concat :
    nfa.expanding survey current waiting (done ++ [c]) =
      (nfa.expanding survey current waiting done).discover (nfa.step current c) := by
  simp [expanding]

theorem expanded_expanding :
    (nfa.expanding survey current waiting done).expanded =
      survey.expanded ++ [⟨current, nfa.subsetRow current⟩] :=
  Survey.expanded_foldl_discover _ _

theorem advanceSurvey_eq_expanding (queue : survey.waiting = current :: waiting) :
    nfa.advanceSurvey survey = nfa.expanding survey current waiting nfa.alphabet.toList := by
  have targets : (nfa.subsetRow current).map (·.2) =
      nfa.alphabet.toList.map (nfa.step current) := List.map_map
  rw [advanceSurvey, queue, expanding, ← targets]

theorem order_expanding_nil (queue : survey.waiting = current :: waiting) :
    (nfa.expanding survey current waiting []).order = survey.order := by
  simp [expanding, Survey.order, queue]

/-- Taking a subset from the queue leaves the order of discovery as it is. -/
theorem Survey.Consistent.expanding_nil
    (consistent : survey.Consistent) (queue : survey.waiting = current :: waiting) :
    (nfa.expanding survey current waiting []).Consistent :=
  have sameOrder := order_expanding_nil queue
  ⟨sameOrder ▸ consistent.distinct, fun subset => sameOrder ▸ consistent.seen_iff subset⟩

theorem mem_of_lt_of_mem_prefix
    {chars : OrderedSet Char} {done : List Char} {c d : Char} (isInitial : done <+: chars.toList)
    (reached : c ∈ done) (char : d ∈ chars) (smaller : d < c) : d ∈ done := by
  obtain ⟨todo, whole⟩ := isInitial
  have ordered : (done ++ todo).Pairwise fun a b => compare a b = .lt :=
    whole ▸ Std.ExtTreeSet.ordered_toList
  rw [← Std.ExtTreeSet.mem_toList, ← whole] at char
  rcases List.mem_append.mp char with inDone | inTodo
  · exact inDone
  · have larger := (List.pairwise_append.mp ordered).2.2 c reached d inTodo
    exact absurd (smaller.trans (compare_lt_iff_lt.mp larger)) (lt_irrefl d)

namespace BreadthFirst

/-- A discovered subset to which a word leads before the least word of another one was discovered
before that one. -/
theorem mem_front
    {front back : List (OrderedSet S)} {other : OrderedSet S} {least : List Char}
    (ascending : survey.order.Pairwise nfa.Before)
    (split : survey.order = front ++ subset :: back)
    (isLeast : IsLeastWord (nfa.access subset) least)
    (leads : word ∈ nfa.access other) (before : Precedes word least)
    (member : other ∈ survey.order) : other ∈ front := by
  obtain ⟨first, firstLeast⟩ := IsLeastWord.exists_of_mem leads
  have firstBefore : Precedes first least := firstLeast.precedes_of_precedes leads before
  rw [split] at member ascending
  rcases List.mem_append.mp member with inFront | rest
  · exact inFront
  · exfalso
    rcases List.mem_cons.mp rest with rfl | inBack
    · rw [firstLeast.unique isLeast] at firstBefore
      exact Precedes.irrefl _ firstBefore
    · have behind := List.rel_of_pairwise_cons (List.pairwise_append.mp ascending).2.1 inBack
      exact Precedes.irrefl _ (firstBefore.trans (behind least first isLeast firstLeast))

/-- All words before the least word of a discovered subset lead to subsets discovered before that
one, if those have been expanded. -/
theorem subsetAfter_mem_front
    {front back : List (OrderedSet S)} {least : List Char}
    (invariant : nfa.BreadthFirst survey) (split : survey.order = front ++ subset :: back)
    (expanded : ∀ source, source ∈ front → source ∈ survey.expanded.map (·.subset))
    (isLeast : IsLeastWord (nfa.access subset) least)
    (spellable : ∀ c, c ∈ word → c ∈ nfa.alphabet) (before : Precedes word least) :
    nfa.subsetAfter word ∈ front := by
  apply mem_front invariant.ascending split isLeast ⟨spellable, rfl⟩ before
  induction word using List.reverseRecOn with
  | nil => exact invariant.start_mem
  | append_singleton word c ih =>
      have earlier : ∀ d, d ∈ word → d ∈ nfa.alphabet :=
        fun d among => spellable d (List.mem_append_left _ among)
      have sooner := (Precedes.concat word c).trans before
      have discovered := ih earlier sooner
      have inFront :=
        mem_front invariant.ascending split isLeast ⟨earlier, rfl⟩ sooner discovered
      obtain ⟨expansion, among, same⟩ := List.mem_map.mp (expanded _ inFront)
      rw [subsetAfter_concat, ← same]
      exact invariant.covered expansion among c (spellable c (by simp))

/-- The characters are looked up from the expanded subsets in the order of their discovery, and
from one of them in ascending order. -/
theorem lookedUp_of_concat_precedes
    {source : OrderedSet S} {least : List Char} {d : Char}
    (invariant : nfa.BreadthFirst survey) (queue : survey.waiting = current :: waiting)
    (chars : done <+: nfa.alphabet.toList)
    (lookedUp : nfa.LookedUp survey current done source c)
    (isLeast : IsLeastWord (nfa.access source) least)
    (spellable : ∀ c, c ∈ word ++ [d] → c ∈ nfa.alphabet)
    (before : Precedes (word ++ [d]) (least ++ [c])) :
    nfa.LookedUp survey current done (nfa.subsetAfter word) d := by
  have earlier : ∀ d, d ∈ word → d ∈ nfa.alphabet :=
    fun d among => spellable d (List.mem_append_left _ among)
  have char : d ∈ nfa.alphabet := spellable d (by simp)
  have order := Survey.order_of_waiting queue
  refine ⟨char, ?_⟩
  rcases before.of_concat with sooner | ⟨rfl, smaller⟩
  · left
    rcases lookedUp.reached with expanded | ⟨rfl, _⟩
    · obtain ⟨front, back, split⟩ := List.append_of_mem expanded
      rw [split, List.append_assoc, List.cons_append] at order
      have inFront := invariant.subsetAfter_mem_front order
        (fun source member => split ▸ List.mem_append_left _ member) isLeast earlier sooner
      exact split ▸ List.mem_append_left _ inFront
    · exact invariant.subsetAfter_mem_front order (fun _ member => member) isLeast earlier sooner
  · rw [isLeast.mem.2]
    rcases lookedUp.reached with expanded | ⟨same, reached⟩
    · exact .inl expanded
    · exact .inr ⟨same, mem_of_lt_of_mem_prefix chars reached char smaller⟩

theorem exists_isLeastWord
    {source : OrderedSet S} (invariant : nfa.BreadthFirst survey)
    (queue : survey.waiting = current :: waiting)
    (lookedUp : nfa.LookedUp survey current done source c) :
    ∃ least, IsLeastWord (nfa.access source) least := by
  have discovered : source ∈ survey.order := by
    rw [Survey.order_of_waiting queue]
    rcases lookedUp.reached with expanded | ⟨rfl, _⟩
    · exact List.mem_append_left _ expanded
    · simp
  obtain ⟨word, leads⟩ := invariant.reached source discovered
  exact IsLeastWord.exists_of_mem leads

variable [Std.LawfulEqOrd S]

section Expanding

variable (invariant : nfa.BreadthFirst survey) (queue : survey.waiting = current :: waiting)

include invariant queue

theorem consistent_expanding :
    (nfa.expanding survey current waiting done).Consistent :=
  (invariant.expanding_nil queue).foldl_discover _

theorem mem_order_expanding :
    subset ∈ (nfa.expanding survey current waiting done).order ↔
      subset ∈ survey.order ∨ ∃ c, c ∈ done ∧ nfa.step current c = subset := by
  have consistent : (nfa.expanding survey current waiting []).Consistent :=
    invariant.expanding_nil queue
  rw [expanding_eq_foldl, consistent.mem_order_foldl_discover, order_expanding_nil queue,
    List.mem_map]

theorem step_mem_order_expanding
    {source : OrderedSet S} (lookedUp : nfa.LookedUp survey current done source c) :
    nfa.step source c ∈ (nfa.expanding survey current waiting done).order := by
  rw [invariant.mem_order_expanding queue]
  rcases lookedUp.reached with expanded | ⟨rfl, reached⟩
  · obtain ⟨expansion, among, rfl⟩ := List.mem_map.mp expanded
    exact .inl (invariant.covered expansion among c lookedUp.char)
  · exact .inr ⟨c, reached, rfl⟩

theorem origin_of_mem_order_expanding
    (chars : done <+: nfa.alphabet.toList)
    (discovered : subset ∈ (nfa.expanding survey current waiting done).order) :
    subset = nfa.startSubset ∨
      ∃ source c, nfa.LookedUp survey current done source c ∧ nfa.step source c = subset := by
  rcases (invariant.mem_order_expanding queue).mp discovered with old | ⟨c, reached, same⟩
  · rcases invariant.origin subset old with start | ⟨source, c, expanded, char, same⟩
    · exact .inl start
    · exact .inr ⟨source, c, ⟨char, .inl expanded⟩, same⟩
  · have char : c ∈ nfa.alphabet := Std.ExtTreeSet.mem_toList.mp (chars.subset reached)
    exact .inr ⟨current, c, ⟨char, .inr ⟨rfl, reached⟩⟩, same⟩

/-- Whatever has not been discovered yet comes after all that has been. -/
theorem before_of_not_mem_order
    {other : OrderedSet S} (chars : done <+: nfa.alphabet.toList)
    (discovered : subset ∈ (nfa.expanding survey current waiting done).order)
    (undiscovered : other ∉ (nfa.expanding survey current waiting done).order) :
    nfa.Before subset other := by
  intro least otherLeast isLeast isOtherLeast
  rcases precedes_trichotomous least otherLeast with before | same | after
  · exact before
  · exfalso
    rw [← isOtherLeast.mem.2, ← same, isLeast.mem.2] at undiscovered
    exact undiscovered discovered
  -- An earlier word to the other subset would have been followed by now.
  · exfalso
    apply undiscovered
    rw [← isOtherLeast.mem.2]
    cases otherLeast using List.reverseRecOn with
    | nil => exact (invariant.mem_order_expanding queue).mpr (.inl invariant.start_mem)
    | append_singleton word d =>
        rw [subsetAfter_concat]
        apply invariant.step_mem_order_expanding queue
        rcases invariant.origin_of_mem_order_expanding queue chars discovered with
          rfl | ⟨source, c, lookedUp, rfl⟩
        · rw [eq_nil_of_isLeastWord_startSubset isLeast] at after
          exact absurd after Precedes.not_nil
        · obtain ⟨sourceLeast, isSourceLeast⟩ := invariant.exists_isLeastWord queue lookedUp
          have within : Precedes (word ++ [d]) (sourceLeast ++ [c]) :=
            isLeast.precedes_of_precedes_least
              (concat_mem_access isSourceLeast.mem lookedUp.char) after
          exact invariant.lookedUp_of_concat_precedes queue chars lookedUp isSourceLeast
            isOtherLeast.mem.1 within

/-- Every lookup leaves the discovered subsets in order. -/
theorem ascending_expanding (chars : done <+: nfa.alphabet.toList) :
    (nfa.expanding survey current waiting done).order.Pairwise nfa.Before := by
  induction done using List.reverseRecOn with
  | nil =>
      rw [order_expanding_nil queue]
      exact invariant.ascending
  | append_singleton done c ih =>
      have earlier : done <+: nfa.alphabet.toList := (List.prefix_append done [c]).trans chars
      have consistent : (nfa.expanding survey current waiting done).Consistent :=
        invariant.consistent_expanding queue
      rw [expanding_concat]
      rcases consistent.order_discover (nfa.step current c) with ⟨same, _⟩ | ⟨grown, undiscovered⟩
      · rw [same]
        exact ih earlier
      · rw [grown]
        refine List.pairwise_append.mpr ⟨ih earlier, List.pairwise_singleton _ _, ?_⟩
        intro subset discovered other last
        rw [List.mem_singleton.mp last]
        exact invariant.before_of_not_mem_order queue earlier discovered undiscovered

end Expanding

theorem initial (nfa : Nfa S) : nfa.BreadthFirst (.start nfa.startSubset) where
  toSurveyInvariant := .initial nfa
  origin _ member := .inl (List.mem_singleton.mp member)
  ascending := List.pairwise_singleton _ _

theorem advance (invariant : nfa.BreadthFirst survey) :
    nfa.BreadthFirst (nfa.advanceSurvey survey) := by
  cases queue : survey.waiting with
  | nil =>
      rw [advanceSurvey, queue]
      exact invariant
  | cons current waiting =>
      refine ⟨invariant.toSurveyInvariant.advance, ?_, ?_⟩
      · intro subset discovered
        rw [advanceSurvey_eq_expanding queue] at discovered ⊢
        rcases invariant.origin_of_mem_order_expanding queue (List.prefix_refl _) discovered with
          start | ⟨source, c, lookedUp, same⟩
        · exact .inl start
        · refine .inr ⟨source, c, ?_, lookedUp.char, same⟩
          rw [expanded_expanding, List.map_append]
          rcases lookedUp.reached with expanded | ⟨rfl, _⟩
          · exact List.mem_append_left _ expanded
          · simp
      · rw [advanceSurvey_eq_expanding queue]
        exact invariant.ascending_expanding queue (List.prefix_refl _)

theorem run (invariant : nfa.BreadthFirst survey) (fuel : Nat) :
    nfa.BreadthFirst (nfa.runSurvey fuel survey) := by
  induction fuel generalizing survey with
  | zero => exact invariant
  | succ fuel ih =>
      rw [runSurvey]
      split
      · exact invariant
      · exact ih invariant.advance

end BreadthFirst

theorem breadthFirst_survey [Std.LawfulEqOrd S] (nfa : Nfa S) : nfa.BreadthFirst nfa.survey :=
  (BreadthFirst.initial nfa).run _

end PatternAutomata.Nfa
