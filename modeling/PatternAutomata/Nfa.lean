import PatternAutomata.Ordered.Map
import PatternAutomata.Ordered.Set
import PatternAutomata.Symbol

/-!
# Automata with epsilon moves

A nondeterministic automaton over characters.  The moves are kept in rows: the row of a state maps
a symbol to the set of its targets.

An automaton is grown from a single state.  Growing only ever adds, and what is added brings along
everything that it mentions: a move brings its two states and its character.
-/

namespace PatternAutomata

/-- The moves from one state: the set of targets for every symbol that has any. -/
abbrev Nfa.Row (S : Type) [Ord S] := OrderedMap Symbol (OrderedSet S)

/-- A nondeterministic automaton with epsilon moves. -/
structure Nfa (S : Type) [Ord S] where
  alphabet : OrderedSet Char
  states : OrderedSet S
  start : S
  rows : OrderedMap S (Nfa.Row S)
  accepting : OrderedSet S

namespace Nfa

variable {S T : Type} [Ord S] [Std.TransOrd S] [Ord T] [Std.TransOrd T]

/-- The automaton of one state, without moves and accepting nothing. -/
def singleton (start : S) : Nfa S where
  alphabet := ∅
  states := {start}
  start := start
  rows := ∅
  accepting := ∅

def addState (nfa : Nfa S) (state : S) : Nfa S :=
  { nfa with states := nfa.states.insert state }

def Row.add (row : Row S) (symbol : Symbol) (target : S) : Row S :=
  row.alter symbol fun targets => some ((targets.getD ∅).insert target)

def Row.join (first second : Row S) : Row S :=
  OrderedMap.merge (· ∪ ·) first second

def Row.relabel (f : S → T) (row : Row S) : Row T :=
  row.map fun _ => OrderedSet.image f

/-- Adds a move, beside the moves that its source already has. -/
def addMove (nfa : Nfa S) (source : S) (symbol : Symbol) (target : S) : Nfa S :=
  { nfa with
    alphabet :=
      match symbol with
      | .char c => nfa.alphabet.insert c
      | .epsilon => nfa.alphabet
    states := (nfa.states.insert source).insert target
    rows := nfa.rows.alter source fun row => some (Row.add (row.getD ∅) symbol target) }

/-- Makes a state accepting, adding it if necessary. -/
def markAccepting (nfa : Nfa S) (state : S) : Nfa S :=
  { nfa with
    states := nfa.states.insert state
    accepting := nfa.accepting.insert state }

/-- Makes every state rejecting. -/
def clearAccepting (nfa : Nfa S) : Nfa S :=
  { nfa with accepting := ∅ }

/-- Adds the characters, states and moves of another automaton, but not its start or its accepting
states. -/
def absorb (nfa other : Nfa S) : Nfa S :=
  { nfa with
    alphabet := nfa.alphabet ∪ other.alphabet
    states := nfa.states ∪ other.states
    rows := OrderedMap.merge Row.join nfa.rows other.rows }

/-- Renames the states.  Where several states get one name, the row of the greatest of them that
has one stays. -/
def relabel (f : S → T) (nfa : Nfa S) : Nfa T where
  alphabet := nfa.alphabet
  states := OrderedSet.image f nfa.states
  start := f nfa.start
  rows := OrderedMap.rename f (nfa.rows.map fun _ => Row.relabel f)
  accepting := OrderedSet.image f nfa.accepting

def isAccepting (nfa : Nfa S) (state : S) : Bool :=
  nfa.accepting.contains state

/-- The targets of the moves from a state on a symbol, if there are any. -/
def targets? (nfa : Nfa S) (source : S) (symbol : Symbol) : Option (OrderedSet S) :=
  nfa.rows[source]?.bind (·[symbol]?)

def targets (nfa : Nfa S) (source : S) (symbol : Symbol) : OrderedSet S :=
  (nfa.targets? source symbol).getD ∅

/-- Every pair of a source and a symbol that has moves, in order, with the set of targets. -/
def moves (nfa : Nfa S) : List (S × Symbol × OrderedSet S) :=
  nfa.rows.toList.flatMap fun (source, row) =>
    row.toList.map fun (symbol, targets) => (source, symbol, targets)

instance [Std.LawfulEqOrd S] : DecidableEq (Nfa S) := fun first second =>
  decidable_of_iff
    (first.alphabet = second.alphabet ∧ first.states = second.states ∧
      compare first.start second.start = .eq ∧ first.rows = second.rows ∧
      first.accepting = second.accepting) (by
    rw [Std.LawfulEqOrd.compare_eq_iff_eq]
    cases first
    cases second
    simp)

end Nfa

end PatternAutomata
