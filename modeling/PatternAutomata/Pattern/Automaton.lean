import PatternAutomata.Nfa
import PatternAutomata.Pattern

/-!
# The automaton of a pattern

Thompson's construction.  Every part of a pattern becomes an automaton that numbers its states from
zero and starts at zero; joining parts shifts their states out of each other's way.

A chain of concatenations grows one automaton, from its first factor on: each further factor is
added behind what is there.

A chain of unions is laid out in one pass.  The start of each union stands right before its left
alternative, and the accepting states of all unions stand after everything else, the innermost
first.
-/

namespace PatternAutomata

namespace Nfa

def greatest (nfa : Nfa Nat) : Nat := nfa.states.foldl max 0

/-- Every state moved up by a constant. -/
def shift (offset : Nat) (nfa : Nfa Nat) : Nfa Nat :=
  nfa.relabel (· + offset)

def addEpsilons (nfa : Nfa Nat) (sources : OrderedSet Nat) (target : Nat) : Nfa Nat :=
  sources.toList.foldl (fun nfa source => nfa.addMove source .epsilon target) nfa

def markAllAccepting (nfa : Nfa Nat) (states : OrderedSet Nat) : Nfa Nat :=
  states.toList.foldl markAccepting nfa

/-- Reads one of the given characters. -/
def oneOf (characters : List Char) : Nfa Nat :=
  (characters.foldl (fun nfa c => nfa.addMove 0 (.char c) 1) (singleton 0)).markAccepting 1

/-- Reads what the first automaton accepts and then what the second accepts. -/
def followedBy (first second : Nfa Nat) : Nfa Nat :=
  let second := second.shift (first.greatest + 1)
  ((first.clearAccepting.addEpsilons first.accepting second.start).absorb second).markAllAccepting
    second.accepting

/-- Reads what the automaton accepts, as often as the quantifier allows. -/
def quantified (mark : Quantifier) (nfa : Nfa Nat) : Nfa Nat :=
  let inner := nfa.shift 1
  let final := inner.greatest + 1
  let entered := ((singleton 0).absorb inner).addMove 0 .epsilon inner.start
  let skipped := if mark.allowsNone then entered.addMove 0 .epsilon final else entered
  let left := skipped.addEpsilons inner.accepting final
  let repeated := if mark.allowsMany then left.addEpsilons inner.accepting inner.start else left
  repeated.markAccepting final

/-- A chain of unions laid out in part: what has been laid out, the first number that is free, and
the accepting states of each alternative so far, in order. -/
structure Layout where
  body : Nfa Nat
  next : Nat
  exits : List (OrderedSet Nat)

/-- Lays out a further union of the chain: its start, and after it its left alternative. -/
def Layout.addAlternative (layout : Layout) (left : Nfa Nat) : Layout :=
  let left := left.shift (layout.next + 1)
  let next := left.greatest + 1
  { body :=
      ((layout.body.addMove layout.next .epsilon left.start).addMove layout.next .epsilon next).absorb
        left
    next := next
    exits := layout.exits ++ [left.accepting] }

/-- Reads what one of the automata accepts: the first of the given ones, or what the union of the
others, with the last apart, accepts. -/
def alternatives (lefts : List (Nfa Nat)) (last : Nfa Nat) : Nfa Nat :=
  if lefts.isEmpty then last
  else
    let layout := lefts.foldl Layout.addAlternative ⟨singleton 0, 0, []⟩
    let last := last.shift layout.next
    let firstFinal := last.greatest + 1
    let innermost := lefts.length - 1
    let finalOf := fun union => firstFinal + (innermost - union)
    let joined := (layout.exits ++ [last.accepting]).zipIdx.foldl
      (fun nfa (exit, index) => nfa.addEpsilons exit (finalOf (min index innermost)))
      (layout.body.absorb last)
    let linked := (List.range innermost).foldl
      (fun nfa union => nfa.addMove (finalOf (union + 1)) .epsilon (finalOf union)) joined
    linked.markAccepting (finalOf 0)

end Nfa

namespace Pattern

/-- What a walk along a chain has passed: on the way to the first factor, the automata of the
factors after it, the nearest first; on the way to the last alternative, the automata of the
alternatives before it, in order. -/
inductive Passed where
  | factors (rights : List (Nfa Nat))
  | alternatives (lefts : List (Nfa Nat))

/-- The automaton of a chain: of the member at its end, and of what the walk there has passed. -/
def Passed.join : Passed → Nfa Nat → Nfa Nat
  | .factors rights, first => rights.foldl .followedBy first
  | .alternatives lefts, last => .alternatives lefts last

/-- Walks along a chain: a concatenation goes on the way to the first factor, a union on the way to
the last alternative, and any other pattern ends it. -/
def walk : Pattern → Passed → Nfa Nat
  | .literal c, passed => passed.join (.oneOf [c])
  | .charClass cls, passed => passed.join (.oneOf cls.chars)
  | .quantified mark item, passed => passed.join ((walk item (.factors [])).quantified mark)
  | .concat left right, .factors rights =>
    walk left (.factors (walk right (.factors []) :: rights))
  | .concat left right, .alternatives lefts =>
    .alternatives lefts (walk left (.factors [walk right (.factors [])]))
  | .union left right, .alternatives lefts =>
    walk right (.alternatives (lefts ++ [walk left (.factors [])]))
  | .union left right, .factors rights =>
    rights.foldl .followedBy (walk right (.alternatives [walk left (.factors [])]))

def toNfa (pattern : Pattern) : Nfa Nat := pattern.walk (.factors [])

end Pattern

end PatternAutomata
