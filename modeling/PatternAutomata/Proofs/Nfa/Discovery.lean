import PatternAutomata.Nfa.Trace
import PatternAutomata.Proofs.Nfa.BreadthFirst
import PatternAutomata.Proofs.Nfa.Determinization

/-!
# The order of discovery

Determinizing reports every subset once, when it is first seen, in the order of the least words that
lead to it.  The reports change nothing in the survey, and number the subsets after the start by
their places in the order of discovery.
-/

namespace PatternAutomata

/-- A list of all members of a set, each of them once, is as long as the set is large. -/
theorem OrderedSet.size_eq_length
    {α : Type} [Ord α] [Std.TransOrd α] [Std.LawfulEqOrd α]
    {set : OrderedSet α} {members : List α} (distinct : members.Nodup)
    (same : ∀ member, member ∈ set ↔ member ∈ members) : set.size = members.length := by
  rw [← Std.ExtTreeSet.length_toList]
  apply List.Perm.length_eq
  rw [List.perm_ext_iff_of_nodup nodup_toList distinct]
  intro member
  rw [Std.ExtTreeSet.mem_toList, same]

/-- The words over the alphabet on which the moves lead from the start to the state. -/
def Dfa.access {S : Type} [Ord S] [Std.TransOrd S] (dfa : Dfa S) (state : S) : Language Char :=
  {word | (∀ c, c ∈ word → c ∈ dfa.alphabet) ∧ dfa.follow dfa.start word = some state}

namespace Nfa

variable {S : Type} [Ord S] [Std.TransOrd S] {nfa : Nfa S} {subset : OrderedSet S}

theorem Survey.Consistent.size_seen [Std.LawfulEqOrd S] {survey : Survey S}
    (consistent : survey.Consistent) : survey.seen.size = survey.order.length :=
  OrderedSet.size_eq_length consistent.distinct consistent.seen_iff

/-- The reports are the subsets discovered after the first, numbered by their places. -/
structure ReportingSurvey.Faithful (first : OrderedSet S) (reporting : ReportingSurvey S) :
    Prop extends reporting.survey.Consistent where
  exists_others : ∃ others,
    reporting.survey.order = first :: others ∧ reporting.reports = others.zipIdx 1

namespace ReportingSurvey.Faithful

variable [Std.LawfulEqOrd S] {first : OrderedSet S} {reporting : ReportingSurvey S}

theorem discover (faithful : reporting.Faithful first) (subset : OrderedSet S) :
    (reporting.discover subset).Faithful first := by
  have consistent := faithful.toConsistent.discover subset
  obtain ⟨others, order, reports⟩ := faithful.exists_others
  rw [ReportingSurvey.discover]
  rcases faithful.order_discover subset with ⟨same, member⟩ | ⟨grown, absent⟩
  · have seen : reporting.survey.seen.contains subset = true :=
      Std.ExtTreeSet.mem_iff_contains.mp ((faithful.seen_iff subset).mpr member)
    rw [if_pos seen]
    exact ⟨consistent, others, same.trans order, reports⟩
  · have unseen : ¬reporting.survey.seen.contains subset = true := fun seen =>
      absent ((faithful.seen_iff subset).mp (Std.ExtTreeSet.mem_iff_contains.mpr seen))
    have number : (reporting.survey.discover subset).seen.size - 1 = 1 + others.length := by
      rw [consistent.size_seen, grown, order]
      simp [Nat.add_comm]
    rw [if_neg unseen, number]
    refine ⟨consistent, others ++ [subset], ?_, ?_⟩
    · exact grown.trans (by rw [order, List.cons_append])
    · rw [reports, List.zipIdx_append]
      rfl

theorem foldl_discover (faithful : reporting.Faithful first) (targets : List (OrderedSet S)) :
    (targets.foldl ReportingSurvey.discover reporting).Faithful first := by
  induction targets generalizing reporting with
  | nil => exact faithful
  | cons target targets ih => exact ih (faithful.discover target)

theorem advance (faithful : reporting.Faithful first) :
    (nfa.advanceReporting reporting).Faithful first := by
  cases queue : reporting.survey.waiting with
  | nil =>
      rw [advanceReporting, queue]
      exact faithful
  | cons current waiting =>
      rw [advanceReporting, queue]
      have sameOrder : (nfa.expanding reporting.survey current waiting []).order =
          reporting.survey.order := order_expanding_nil queue
      obtain ⟨others, order, reports⟩ := faithful.exists_others
      have taken : ReportingSurvey.Faithful first
          ⟨nfa.expanding reporting.survey current waiting [], reporting.reports⟩ :=
        ⟨faithful.expanding_nil queue, others, sameOrder.trans order, reports⟩
      exact taken.foldl_discover _

theorem run (faithful : reporting.Faithful first) (fuel : Nat) :
    (nfa.runReporting fuel reporting).Faithful first := by
  induction fuel generalizing reporting with
  | zero => exact faithful
  | succ fuel ih =>
      rw [runReporting]
      split
      · exact faithful
      · exact ih faithful.advance

end ReportingSurvey.Faithful

variable [Std.LawfulEqOrd S]

theorem faithful_reportingSurvey (nfa : Nfa S) : nfa.reportingSurvey.Faithful nfa.startSubset :=
  ReportingSurvey.Faithful.run ⟨.start _, [], rfl, rfl⟩ _

/-- What is reported are the discoveries after the start. -/
theorem exists_discoveries_eq_cons (closed : nfa.Closed) :
    ∃ others, nfa.discoveries = nfa.startSubset :: others ∧
      nfa.reportingSurvey.reports = others.zipIdx 1 := by
  obtain ⟨others, order, reports⟩ := (faithful_reportingSurvey nfa).exists_others
  rw [survey_reportingSurvey, order_survey closed] at order
  exact ⟨others, order, reports⟩

theorem reports_reportingSurvey (closed : nfa.Closed) :
    nfa.reportingSurvey.reports = nfa.discoveries.tail.zipIdx 1 := by
  obtain ⟨others, order, reports⟩ := exists_discoveries_eq_cons closed
  rw [order, reports, List.tail_cons]

theorem nodup_discoveries (closed : nfa.Closed) : nfa.discoveries.Nodup :=
  order_survey closed ▸ (surveyInvariant_survey nfa).distinct

theorem size_states_determinize (closed : nfa.Closed) :
    nfa.determinize.states.size = nfa.discoveries.length :=
  OrderedSet.size_eq_length (nodup_discoveries closed) fun _ => mem_states_determinize closed

theorem snd_determinizeWithLog (closed : nfa.Closed) :
    nfa.determinizeWithLog.2 =
      (nfa.discoveries.tail.zipIdx 1).map (fun (subset, number) =>
        Event.discovered number subset.size) ++
      [.determinized nfa.states.size nfa.discoveries.length nfa.alphabet.size] := by
  have dfa : nfa.dfaOf nfa.reportingSurvey.survey.expanded = nfa.determinize :=
    fst_determinizeWithLog nfa
  rw [determinizeWithLog, dfa, size_states_determinize closed, reports_reportingSurvey closed]

theorem access_determinize (closed : nfa.Closed) (subset : OrderedSet S) :
    nfa.determinize.access subset = nfa.access subset := by
  have expanded := expandedBy_determinize nfa
  have follow : ∀ word, (∀ c, c ∈ word → c ∈ nfa.alphabet) →
      (nfa.determinize.follow nfa.determinize.start word = some subset ↔
        nfa.subsetAfter word = subset) := by
    intro word spellable
    rw [expanded.start_eq,
      follow_determinize closed (startSubset_mem_discoveries closed) spellable]
    exact Option.some_inj
  apply Set.ext
  intro word
  change (∀ c, c ∈ word → c ∈ nfa.determinize.alphabet) ∧ _ ↔ _
  rw [expanded.alphabet_eq]
  exact and_congr_right (follow word)

open Text in
/-- The subsets in the order in which they are first seen: what is reported of them on the way, and
which words lead to them. -/
structure IsDiscoveryOrder (nfa : Nfa S) (order : List (OrderedSet S)) : Prop where
  head?_eq : order.head? = some nfa.determinize.start
  reports_eq : nfa.reportingSurvey.reports = order.tail.zipIdx 1
  nodup : order.Nodup
  mem_iff : ∀ subset, subset ∈ order ↔ subset ∈ nfa.determinize.states
  exists_leastWord : ∀ subset, subset ∈ order →
    ∃ word, IsLeastWord (nfa.determinize.access subset) word
  ascending : order.Pairwise fun first second => ∀ word other,
    IsLeastWord (nfa.determinize.access first) word →
      IsLeastWord (nfa.determinize.access second) other → Precedes word other
  dfa_eq : nfa.determinizeWithLog.1 = nfa.determinize
  log_eq : nfa.determinizeWithLog.2.map (fun event => (event.level, event.message)) =
    (order.tail.zipIdx 1).map (fun (subset, number) =>
      (.trace, "discovered DFA state #" ++ toString number ++ ": " ++ toString subset.size ++
        " NFA states")) ++
    [(.debug, "subset construction: " ++ toString nfa.states.size ++ " NFA states -> " ++
      toString order.length ++ " DFA states over " ++ toString nfa.alphabet.size ++ " symbols")]

/-- Determinizing whatever the operations build discovers the subsets in the order of the least
words that lead to them, and logs just this. -/
theorem Built.isDiscoveryOrder_discoveries {nfa : Nfa S} (built : nfa.Built) :
    nfa.IsDiscoveryOrder nfa.discoveries := by
  have closed := built.closed
  constructor
  · obtain ⟨others, order, _⟩ := exists_discoveries_eq_cons closed
    rw [order, List.head?_cons, (expandedBy_determinize nfa).start_eq]
  · exact reports_reportingSurvey closed
  · exact nodup_discoveries closed
  · exact fun _ => (mem_states_determinize closed).symm
  · intro subset discovered
    rw [access_determinize closed]
    obtain ⟨word, leads⟩ := (mem_discoveries closed).mp discovered
    exact Text.IsLeastWord.exists_of_mem leads
  · simp only [access_determinize closed]
    exact order_survey closed ▸ (breadthFirst_survey nfa).ascending
  · exact fst_determinizeWithLog nfa
  · rw [snd_determinizeWithLog closed, List.map_append, List.map_map]
    rfl

/-- A case in which a subset with a later character is discovered before one with a longer word. -/
theorem isDiscoveryOrder_discoveries_branching :
    let nfa := ((((singleton 0).addMove 0 (.char 'a') 1).addMove 0 (.char 'b') 2).addMove
      1 (.char 'b') 3).markAccepting 3
    nfa.Built ∧ nfa.IsDiscoveryOrder nfa.discoveries ∧
      nfa.discoveries.map (·.toList) = [[0], [1], [2], [], [3]] ∧
      nfa.determinizeWithLog.2 =
        [.discovered 1 1, .discovered 2 1, .discovered 3 0, .discovered 4 1, .determinized 4 5 2] ∧
      (Event.discovered 3 0).message = "discovered DFA state #3: 0 NFA states" := by
  intro nfa
  have built : nfa.Built :=
    .markAccepting 3 (.addMove 1 (.char 'b') 3 (.addMove 0 (.char 'b') 2
      (.addMove 0 (.char 'a') 1 (.singleton 0))))
  exact ⟨built, built.isDiscoveryOrder_discoveries, by decide, by decide, by decide⟩

end Nfa

end PatternAutomata
