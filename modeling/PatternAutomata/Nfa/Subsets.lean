import PatternAutomata.Dfa
import PatternAutomata.Nfa.Closure

/-!
# Determinizing by subsets

The states of the deterministic automaton are the subsets that the given one can be in.  They are
surveyed breadth first: subsets wait in a queue in the order of their discovery, and expanding one
looks up where each character of the alphabet leads, in ascending order.  The empty subset is a
state like any other, so no move is ever missing.
-/

namespace PatternAutomata.Nfa

variable {S : Type} [Ord S] [Std.TransOrd S]

/-- A subset and the subset to which each character of the alphabet leads. -/
structure Expansion (S : Type) [Ord S] where
  subset : OrderedSet S
  row : List (Char × OrderedSet S)

/-- A survey of subsets on its way: those expanded and those waiting, both in the order of their
discovery, and all of them together. -/
structure Survey (S : Type) [Ord S] [Std.TransOrd S] where
  expanded : List (Expansion S)
  waiting : List (OrderedSet S)
  seen : OrderedSet (OrderedSet S)

namespace Survey

/-- The survey that knows a single subset. -/
def start (subset : OrderedSet S) : Survey S := ⟨[], [subset], {subset}⟩

/-- Takes note of a subset: one not seen before has to wait for its expansion. -/
def discover (survey : Survey S) (subset : OrderedSet S) : Survey S :=
  if survey.seen.contains subset then survey
  else
    { survey with
      waiting := survey.waiting ++ [subset]
      seen := survey.seen.insert subset }

end Survey

/-- Where each character of the alphabet leads from a subset. -/
def subsetRow (nfa : Nfa S) (subset : OrderedSet S) : List (Char × OrderedSet S) :=
  nfa.alphabet.toList.map fun c => (c, nfa.step subset c)

/-- Expands the subset that has waited longest. -/
def advanceSurvey (nfa : Nfa S) (survey : Survey S) : Survey S :=
  match survey.waiting with
  | [] => survey
  | subset :: waiting =>
    let row := nfa.subsetRow subset
    (row.map (·.2)).foldl Survey.discover
      { survey with
        expanded := survey.expanded ++ [⟨subset, row⟩]
        waiting := waiting }

/-- Expands subsets until none is waiting, but at most `fuel` of them. -/
def runSurvey (nfa : Nfa S) : Nat → Survey S → Survey S
  | 0, survey => survey
  | fuel + 1, survey =>
    if survey.waiting.isEmpty then survey
    else runSurvey nfa fuel (nfa.advanceSurvey survey)

def startSubset (nfa : Nfa S) : OrderedSet S := nfa.closure nfa.start

/-- The survey of all subsets that the automaton can be in.  A set of `n` states has `2 ^ n`
subsets, which bounds the survey. -/
def survey (nfa : Nfa S) : Survey S :=
  nfa.runSurvey (Nat.pow 2 nfa.states.size) (.start nfa.startSubset)

/-- The subsets that the automaton can be in, in the order of their discovery. -/
def discoveries (nfa : Nfa S) : List (OrderedSet S) :=
  nfa.survey.expanded.map (·.subset)

/-- Adds the moves of an expanded subset to a deterministic automaton; the subset accepts if it
holds an accepting state. -/
def addExpansion (nfa : Nfa S) (dfa : Dfa (OrderedSet S)) (expansion : Expansion S) :
    Dfa (OrderedSet S) :=
  expansion.row.foldl (fun dfa (c, target) => dfa.setMove expansion.subset c target)
    (if OrderedSet.meets expansion.subset nfa.accepting then dfa.markAccepting expansion.subset
    else dfa)

def dfaOf (nfa : Nfa S) (expanded : List (Expansion S)) : Dfa (OrderedSet S) :=
  expanded.foldl nfa.addExpansion (.singleton nfa.alphabet nfa.startSubset)

/-- The deterministic automaton whose states are the subsets that the given one can be in. -/
def determinize (nfa : Nfa S) : Dfa (OrderedSet S) :=
  nfa.dfaOf nfa.survey.expanded

end PatternAutomata.Nfa
