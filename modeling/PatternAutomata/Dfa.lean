import PatternAutomata.Ordered.Map
import PatternAutomata.Ordered.Set

/-!
# Deterministic automata

A deterministic automaton over characters, whose move function may be partial.  What happens to a
word when a move is missing is part of the automaton; a character outside the alphabet is rejected
in any case.
-/

namespace PatternAutomata

/-- What a missing move on a character of the alphabet means. -/
inductive MissingMove where
  /-- the character is skipped -/
  | stay
  /-- the word is rejected -/
  | reject
deriving DecidableEq

/-- The moves from one state: the target for every character that has one. -/
abbrev Dfa.Row (S : Type) := OrderedMap Char S

/-- A deterministic automaton. -/
structure Dfa (S : Type) [Ord S] where
  alphabet : OrderedSet Char
  states : OrderedSet S
  start : S
  rows : OrderedMap S (Dfa.Row S)
  accepting : OrderedSet S
  missing : MissingMove

namespace Dfa

variable {S T : Type} [Ord S] [Std.TransOrd S] [Ord T] [Std.TransOrd T]

/-- The automaton of one state over the given alphabet, without moves and accepting nothing. -/
def singleton (alphabet : OrderedSet Char) (start : S) : Dfa S where
  alphabet := alphabet
  states := {start}
  start := start
  rows := ∅
  accepting := ∅
  missing := .stay

/-- Sets the move from a state on a character, in place of the one that may be there. -/
def setMove (dfa : Dfa S) (source : S) (c : Char) (target : S) : Dfa S :=
  { dfa with
    alphabet := dfa.alphabet.insert c
    states := (dfa.states.insert source).insert target
    rows := dfa.rows.alter source fun row => some ((row.getD ∅).insert c target) }

/-- Makes a state accepting, adding it if necessary. -/
def markAccepting (dfa : Dfa S) (state : S) : Dfa S :=
  { dfa with
    states := dfa.states.insert state
    accepting := dfa.accepting.insert state }

def withMissing (dfa : Dfa S) (missing : MissingMove) : Dfa S :=
  { dfa with missing := missing }

def isAccepting (dfa : Dfa S) (state : S) : Bool :=
  dfa.accepting.contains state

/-- The target of the move from a state on a character, if there is one. -/
def target? (dfa : Dfa S) (source : S) (c : Char) : Option S :=
  dfa.rows[source]?.bind (·[c]?)

/-- Reads a character; `none` means that the word is rejected. -/
def advance (dfa : Dfa S) (state : S) (c : Char) : Option S :=
  if dfa.alphabet.contains c then
    match dfa.target? state c, dfa.missing with
    | some target, _ => some target
    | none, .stay => some state
    | none, .reject => none
  else none

/-- Reads a word; `none` means that it is rejected on the way. -/
def run (dfa : Dfa S) (state : S) (word : List Char) : Option S :=
  word.foldlM dfa.advance state

def accepts (dfa : Dfa S) (word : List Char) : Bool :=
  (dfa.run dfa.start word).any dfa.isAccepting

/-- Renames the states.  Where several states get one name, the row of the greatest of them that
has one stays. -/
def relabel (f : S → T) (dfa : Dfa S) : Dfa T where
  alphabet := dfa.alphabet
  states := OrderedSet.image f dfa.states
  start := f dfa.start
  rows := OrderedMap.rename f (dfa.rows.map fun _ row => row.map fun _ => f)
  accepting := OrderedSet.image f dfa.accepting
  missing := dfa.missing

/-- The number of each state: how many states are smaller. -/
def numbering (dfa : Dfa S) : OrderedMap S Nat :=
  Std.ExtTreeMap.ofList dfa.states.toList.zipIdx

/-- Names each state by its number. -/
def renumber (dfa : Dfa S) : Dfa Nat :=
  let numbering := dfa.numbering
  dfa.relabel fun state => numbering.getD state dfa.states.size

instance [Std.LawfulEqOrd S] : DecidableEq (Dfa S) := fun first second =>
  have : DecidableEq S := fun first second =>
    decidable_of_iff (compare first second = .eq) Std.LawfulEqOrd.compare_eq_iff_eq
  decidable_of_iff
    (first.alphabet = second.alphabet ∧ first.states = second.states ∧
      first.start = second.start ∧ first.rows = second.rows ∧
      first.accepting = second.accepting ∧ first.missing = second.missing) (by
    cases first
    cases second
    simp)

end Dfa

end PatternAutomata
