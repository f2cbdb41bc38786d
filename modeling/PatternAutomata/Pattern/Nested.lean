import PatternAutomata.Pattern.Automaton

/-!
# The construction case by case

The automaton of a pattern by plain recursion, with one rule for each kind of node.  A single
character or a class has its two states and its moves written down; any other rule sets shifted
copies of the automata of the parts side by side and joins them by epsilon moves.
-/

namespace PatternAutomata

namespace Nfa

/-- The row with the same target for each of the characters. -/
def rowTo (target : Nat) (characters : List Char) : Row Nat :=
  characters.foldr (fun c row => row.insert (.char c) {target}) ∅

/-- Two states, and a move from the first to the second on each of the characters; the first is the
start, and the second accepts. -/
def twoStates (characters : List Char) : Nfa Nat where
  alphabet := Std.ExtTreeSet.ofList characters
  states := {0, 1}
  start := 0
  rows := Std.ExtTreeMap.ofList [(0, rowTo 1 characters)]
  accepting := {1}

def absorbAll (nfa : Nfa Nat) (parts : List (Nfa Nat)) : Nfa Nat := parts.foldl absorb nfa

def addLinks (nfa : Nfa Nat) (links : List (Nat × Nat)) : Nfa Nat :=
  links.foldl (fun nfa link => nfa.addMove link.1 .epsilon link.2) nfa

/-- Automata side by side, with a start, epsilon moves and accepting states given apart. -/
def assemble (start : Nat) (parts : List (Nfa Nat)) (links : List (Nat × Nat))
    (accepting : OrderedSet Nat) : Nfa Nat :=
  (((singleton start).absorbAll parts).addLinks links).markAllAccepting accepting

def exitsTo (nfa : Nfa Nat) (target : Nat) : List (Nat × Nat) :=
  nfa.accepting.toList.map fun source => (source, target)

def sequence (left right : Nfa Nat) : Nfa Nat :=
  let right := right.shift (left.greatest + 1)
  assemble left.start [left, right] (left.exitsTo right.start) right.accepting

/-- Reads what one of the two automata accepts: from a fresh start to either, and from either to a
fresh accepting state. -/
def either (left right : Nfa Nat) : Nfa Nat :=
  let left := left.shift 1
  let right := right.shift (left.greatest + 1)
  let final := right.greatest + 1
  assemble 0 [left, right]
    ((0, left.start) :: (0, right.start) :: (left.exitsTo final ++ right.exitsTo final)) {final}

/-- What the automaton accepts, as often as the quantifier allows: from a fresh start to a fresh
accepting state, through the automaton or past it, and perhaps back to its start. -/
def repeated (mark : Quantifier) (nfa : Nfa Nat) : Nfa Nat :=
  let inner := nfa.shift 1
  let final := inner.greatest + 1
  let past := if mark.allowsNone then [(0, final)] else []
  let back := if mark.allowsMany then inner.exitsTo inner.start else []
  assemble 0 [inner] ((0, inner.start) :: (past ++ inner.exitsTo final ++ back)) {final}

end Nfa

namespace Pattern

/-- The automaton of a pattern, case by case. -/
def nestedNfa : Pattern → Nfa Nat
  | .literal c => .twoStates [c]
  | .charClass cls => .twoStates cls.chars
  | .union left right => left.nestedNfa.either right.nestedNfa
  | .concat left right => left.nestedNfa.sequence right.nestedNfa
  | .quantified mark item => item.nestedNfa.repeated mark

end Pattern

end PatternAutomata
