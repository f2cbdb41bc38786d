import PatternAutomata.Nfa.Trace
import PatternAutomata.Pattern.Automaton
import PatternAutomata.Pattern.Parser

/-!
# Matchers

A matcher is a pattern brought all the way to a deterministic automaton, ready to decide words.
-/

namespace PatternAutomata

/-- A pattern that is ready to be matched. -/
structure Matcher where
  dfa : Dfa (OrderedSet Nat)

namespace Matcher

/-- Prepares a pattern, and reports the steps. -/
def prepare (pattern : List Char) : Except SyntaxError (Matcher × List Event) := do
  let tree ← Pattern.parse pattern
  let nfa := tree.toNfa
  let (dfa, events) := nfa.determinizeWithLog
  return (⟨dfa⟩, .parsed pattern :: .compiled pattern nfa.states.size :: events)

def ofPattern (pattern : List Char) : Except SyntaxError Matcher :=
  (prepare pattern).map (·.1)

def accepts (matcher : Matcher) (word : List Char) : Bool :=
  matcher.dfa.accepts word

end Matcher

end PatternAutomata
