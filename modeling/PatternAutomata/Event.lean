import PatternAutomata.Text.Quoted

/-!
# Events

What the preparation of a pattern reports on its way, from the coarse to the fine.
-/

namespace PatternAutomata

/-- How much attention an event asks for. -/
inductive Level where
  | trace
  | debug
  | info
deriving DecidableEq

/-- A step in the preparation of a pattern. -/
inductive Event where
  /-- the text of a pattern has been parsed -/
  | parsed (pattern : List Char)
  /-- a pattern has become an automaton with so many states -/
  | compiled (pattern : List Char) (states : Nat)
  /-- a subset has been discovered after so many others, with so many members -/
  | discovered (index size : Nat)
  /-- an automaton with so many states has become a deterministic one -/
  | determinized (states subsets symbols : Nat)
  /-- a pattern is ready to be matched by a deterministic automaton with so many states -/
  | ready (pattern : List Char) (states : Nat)
deriving DecidableEq

namespace Event

def level : Event → Level
  | .discovered .. => .trace
  | .parsed .. | .compiled .. | .determinized .. => .debug
  | .ready .. => .info

def message : Event → String
  | .parsed pattern => "parsed pattern " ++ String.ofList (Text.quoted pattern)
  | .compiled pattern states =>
    "compiled " ++ String.ofList (Text.quoted pattern) ++ " into an NFA of " ++ toString states ++
      " states"
  | .discovered index size =>
    "discovered DFA state #" ++ toString index ++ ": " ++ toString size ++ " NFA states"
  | .determinized states subsets symbols =>
    "subset construction: " ++ toString states ++ " NFA states -> " ++ toString subsets ++
      " DFA states over " ++ toString symbols ++ " symbols"
  | .ready pattern states =>
    String.ofList (Text.quoted pattern) ++ " compiled to " ++ toString states ++ " DFA states"

end Event

end PatternAutomata
