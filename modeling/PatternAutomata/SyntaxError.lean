/-!
# Syntax errors

What can be wrong with the text of a pattern, and where.  A position counts the characters of the
text before the place in question.
-/

namespace PatternAutomata

/-- What is wrong with a pattern. -/
inductive SyntaxFault where
  /-- a group that is never closed -/
  | unclosedGroup
  /-- a closing parenthesis without an open group -/
  | strayClosing
  /-- a backslash at the very end -/
  | trailingEscape
  /-- nothing before or after a bar -/
  | emptyAlternative
  /-- nothing between two parentheses -/
  | emptyGroup
  /-- brackets that name no class -/
  | unknownClass
  /-- a quantifier without something to repeat -/
  | nothingToRepeat
  /-- no pattern at all -/
  | unexpectedEnd
  /-- a group inside too many groups -/
  | nestingTooDeep
deriving DecidableEq

def SyntaxFault.message : SyntaxFault → String
  | .unclosedGroup => "unclosed parenthesis"
  | .strayClosing => "unexpected ')'"
  | .trailingEscape => "'\\' escapes nothing"
  | .emptyAlternative => "empty alternative"
  | .emptyGroup => "empty group"
  | .unknownClass => "unknown character class, expected [0-9], [a-z] or [A-Z]"
  | .nothingToRepeat => "quantifier has nothing to repeat"
  | .unexpectedEnd => "unexpected end of expression"
  | .nestingTooDeep => "groups nested too deep"

/-- A fault together with the position at which it stands. -/
structure SyntaxError where
  fault : SyntaxFault
  position : Nat
deriving DecidableEq

def SyntaxError.message (error : SyntaxError) : String :=
  error.fault.message ++ " at position " ++ toString error.position

theorem exists_of_map_eq_ok
    {ε α β : Type} {outcome : Except ε α} {f : α → β} {value : β}
    (mapped : outcome.map f = .ok value) :
    ∃ before, outcome = .ok before ∧ f before = value := by
  cases outcome with
  | error error => cases mapped
  | ok before =>
      cases mapped
      exact ⟨before, rfl, rfl⟩

theorem exists_of_bind_eq_ok
    {ε α β : Type} {outcome : Except ε α} {next : α → Except ε β} {value : β}
    (bound : outcome >>= next = .ok value) :
    ∃ before, outcome = .ok before ∧ next before = .ok value := by
  cases outcome with
  | error error => cases bound
  | ok before => exact ⟨before, rfl, bound⟩

end PatternAutomata
