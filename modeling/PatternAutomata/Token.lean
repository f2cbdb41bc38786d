import PatternAutomata.CharClass
import PatternAutomata.Quantifier

/-!
# Tokens

The units that the grammar of patterns speaks of.  A literal keeps no trace of whether it was
written with a backslash.
-/

namespace PatternAutomata

/-- A unit of the grammar of patterns. -/
inductive Token where
  | literal (c : Char)
  | charClass (cls : CharClass)
  | quantifier (mark : Quantifier)
  | pipe
  | openGroup
  | closeGroup
deriving DecidableEq

namespace Token

def isQuantifier : Token → Bool
  | .quantifier _ => true
  | _ => false

/-- The token as texts show it; a literal is shown without a backslash. -/
def text : Token → List Char
  | .literal c => [c]
  | .charClass cls => cls.text
  | .quantifier mark => [mark.glyph]
  | .pipe => ['|']
  | .openGroup => ['(']
  | .closeGroup => [')']

/-- The token that an unescaped character stands for when it opens no class. -/
def ofChar : Char → Token
  | '*' => .quantifier .star
  | '?' => .quantifier .optional
  | '+' => .quantifier .plus
  | '|' => .pipe
  | '(' => .openGroup
  | ')' => .closeGroup
  | c => .literal c

end Token

/-- A token and the position of the first character of its spelling. -/
structure PlacedToken where
  position : Nat
  token : Token
deriving DecidableEq

end PatternAutomata
