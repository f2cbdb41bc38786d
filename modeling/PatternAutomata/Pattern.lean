import PatternAutomata.CharClass
import PatternAutomata.Quantifier

/-!
# Patterns

The tree of a pattern.  Groups leave no node of their own: they only decide which tree it is.
-/

namespace PatternAutomata

/-- A regular pattern over characters. -/
inductive Pattern where
  | literal (c : Char)
  | charClass (cls : CharClass)
  | union (left right : Pattern)
  | concat (left right : Pattern)
  | quantified (mark : Quantifier) (item : Pattern)
deriving DecidableEq

namespace Pattern

/-- The greatest number of groups that may be open at once. -/
def maxGroupDepth : Nat := 250

end Pattern

end PatternAutomata
