import PatternAutomata.Dfa.Listing
import PatternAutomata.Text.Entry

/-!
# What the text of a deterministic automaton says

The text of an automaton has an entry for each state, and describes an automaton in turn: that with
the states, the start, the accepting states and the moves that are written down.  No text tells
which characters without moves are in the alphabet or what a missing move means, so the automaton
that is described rejects on every character that no move from its state carries.
-/

namespace PatternAutomata.Dfa

/-- What the text of the automaton says of a state. -/
def entry (dfa : Dfa Nat) (state : Nat) : Text.Entry where
  isStart := state == dfa.start
  accepting := dfa.isAccepting state
  state := state
  moves := (dfa.rows.getD state ∅).toList.map fun (c, target) => (c, [target])

/-- The move that a line describes, if it has a single target. -/
def moveOf? : Char × List Nat → Option (Char × Nat)
  | (c, [target]) => some (c, target)
  | _ => none

/-- The state and the row that an entry describes, if every line of it has a single target. -/
def rowOf? (entry : Text.Entry) : Option (Nat × Row Nat) := do
  let moves ← entry.moves.mapM moveOf?
  return (entry.state, .ofList moves)

/-- The automaton with the start, the entries and the rows that they describe. -/
def described (start : Nat) (entries : List Text.Entry) (rows : List (Nat × Row Nat)) :
    Dfa Nat where
  alphabet := .ofList (entries.flatMap fun entry => entry.moves.map (·.1))
  states := .ofList (entries.map (·.state))
  start := start
  rows := .ofList rows
  accepting := .ofList ((entries.filter (·.accepting)).map (·.state))
  missing := .reject

/-- The automaton that the entries describe, if one of them is marked as the start and no line has
several targets. -/
def ofEntries? (entries : List Text.Entry) : Option (Dfa Nat) := do
  let start ← entries.find? (·.isStart)
  let rows ← entries.mapM rowOf?
  return described start.state entries rows

/-- The automaton that a text describes, if it is the listing of one. -/
def ofListing? (text : List Char) : Option (Dfa Nat) := do
  let entries ← Text.readEntries? text
  ofEntries? entries

/-- The second automaton is what the text of the first tells of it: the same states, start, accepting
states and moves, over the characters that moves carry, and a missing move rejects. -/
structure IsToldBy (dfa told : Dfa Nat) : Prop where
  states_eq : told.states = dfa.states
  start_eq : told.start = dfa.start
  accepting_eq : told.accepting = dfa.accepting
  target?_eq : ∀ source c, told.target? source c = dfa.target? source c
  mem_alphabet_iff : ∀ c,
    c ∈ told.alphabet ↔ ∃ source target, dfa.target? source c = some target
  missing_eq : told.missing = .reject

end PatternAutomata.Dfa
