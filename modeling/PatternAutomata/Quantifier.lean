/-!
# Quantifiers

The three marks that say how often the item before them may occur.  A quantifier is determined by
two answers: whether the item may be left out, and whether it may occur more than once.
-/

namespace PatternAutomata

/-- How often an item may occur. -/
inductive Quantifier where
  /-- any number of times -/
  | star
  /-- at most once -/
  | optional
  /-- at least once -/
  | plus
deriving DecidableEq

namespace Quantifier

def glyph : Quantifier → Char
  | .star => '*'
  | .optional => '?'
  | .plus => '+'

/-- Whether the item may be left out. -/
def allowsNone : Quantifier → Bool
  | .star | .optional => true
  | .plus => false

/-- Whether the item may occur more than once. -/
def allowsMany : Quantifier → Bool
  | .star | .plus => true
  | .optional => false

end Quantifier

end PatternAutomata
