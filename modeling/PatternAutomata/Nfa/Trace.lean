import PatternAutomata.Event
import PatternAutomata.Nfa.Subsets

/-!
# Reporting discoveries

The survey of subsets once more, with the reports that it gives on its way: a subset that has not
been seen before is reported at once, under the number of those seen before it.
-/

namespace PatternAutomata.Nfa

variable {S : Type} [Ord S] [Std.TransOrd S]

/-- A survey on its way, and the subsets that it has reported, each with its number, the earliest
first. -/
structure ReportingSurvey (S : Type) [Ord S] [Std.TransOrd S] where
  survey : Survey S
  reports : List (OrderedSet S × Nat)

/-- Takes note of a subset, and reports one not seen before. -/
def ReportingSurvey.discover (reporting : ReportingSurvey S) (subset : OrderedSet S) :
    ReportingSurvey S :=
  let survey := reporting.survey.discover subset
  if reporting.survey.seen.contains subset then ⟨survey, reporting.reports⟩
  else ⟨survey, reporting.reports ++ [(subset, survey.seen.size - 1)]⟩

/-- Expands the subset that has waited longest, and reports what is discovered. -/
def advanceReporting (nfa : Nfa S) (reporting : ReportingSurvey S) : ReportingSurvey S :=
  match reporting.survey.waiting with
  | [] => reporting
  | subset :: waiting =>
    let row := nfa.subsetRow subset
    (row.map (·.2)).foldl ReportingSurvey.discover
      { reporting with
        survey :=
          { reporting.survey with
            expanded := reporting.survey.expanded ++ [⟨subset, row⟩]
            waiting := waiting } }

def runReporting (nfa : Nfa S) : Nat → ReportingSurvey S → ReportingSurvey S
  | 0, reporting => reporting
  | fuel + 1, reporting =>
    if reporting.survey.waiting.isEmpty then reporting
    else runReporting nfa fuel (nfa.advanceReporting reporting)

/-- The survey of all subsets that the automaton can be in; the start is not reported. -/
def reportingSurvey (nfa : Nfa S) : ReportingSurvey S :=
  nfa.runReporting (Nat.pow 2 nfa.states.size) ⟨.start nfa.startSubset, []⟩

/-- Determinizes, and reports every discovery when it is made and then the sizes of both
automata. -/
def determinizeWithLog (nfa : Nfa S) : Dfa (OrderedSet S) × List Event :=
  let reporting := nfa.reportingSurvey
  let dfa := nfa.dfaOf reporting.survey.expanded
  let discovered := reporting.reports.map fun (subset, number) =>
    Event.discovered number subset.size
  (dfa, discovered ++ [.determinized nfa.states.size dfa.states.size nfa.alphabet.size])

variable {nfa : Nfa S} {subset : OrderedSet S}

theorem survey_discover (reporting : ReportingSurvey S) :
    (reporting.discover subset).survey = reporting.survey.discover subset := by
  rw [ReportingSurvey.discover]
  split <;> rfl

theorem survey_foldl_discover (reporting : ReportingSurvey S) (targets : List (OrderedSet S)) :
    (targets.foldl ReportingSurvey.discover reporting).survey =
      targets.foldl Survey.discover reporting.survey := by
  induction targets generalizing reporting with
  | nil => rfl
  | cons target targets ih => rw [List.foldl_cons, List.foldl_cons, ih, survey_discover]

theorem survey_advanceReporting (reporting : ReportingSurvey S) :
    (nfa.advanceReporting reporting).survey = nfa.advanceSurvey reporting.survey := by
  cases queue : reporting.survey.waiting with
  | nil =>
      rw [advanceReporting, advanceSurvey, queue]
  | cons current waiting =>
      rw [advanceReporting, advanceSurvey, queue]
      exact survey_foldl_discover _ _

theorem survey_runReporting (fuel : Nat) (reporting : ReportingSurvey S) :
    (nfa.runReporting fuel reporting).survey = nfa.runSurvey fuel reporting.survey := by
  induction fuel generalizing reporting with
  | zero => rfl
  | succ fuel ih =>
      rw [runReporting, runSurvey]
      split
      · rfl
      · rw [ih, survey_advanceReporting]

theorem survey_reportingSurvey : nfa.reportingSurvey.survey = nfa.survey :=
  survey_runReporting _ _

/-- The reports leave no trace in the automaton. -/
theorem fst_determinizeWithLog (nfa : Nfa S) : nfa.determinizeWithLog.1 = nfa.determinize := by
  rw [determinizeWithLog, survey_reportingSurvey]
  rfl

end PatternAutomata.Nfa
