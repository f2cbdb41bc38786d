import PatternAutomata.CharClass
import PatternAutomata.SyntaxError
import PatternAutomata.Text.Blank

/-!
# Faults of characters

What can be wrong with a text before there are tokens, told of each position on its own.  Whether a
character is escaped shows in the run of backslashes right before it, and whether an opening bracket
names a class shows in the characters after it.
-/

namespace PatternAutomata

def SyntaxFault.isOfCharacters : SyntaxFault → Bool
  | .trailingEscape | .unknownClass => true
  | _ => false

/-- The number of backslashes with which the text ends. -/
def finalBackslashes (text : List Char) : Nat :=
  (text.reverse.takeWhile (· == '\\')).length

/-- Whether an odd number of backslashes stands right before the position. -/
def isEscapedAt (text : List Char) (position : Nat) : Bool :=
  finalBackslashes (text.take position) % 2 == 1

/-- The characters of the text, each with whether it is escaped. -/
def marked (text : List Char) : List (Char × Bool) :=
  text.zipIdx.map fun (c, position) => (c, isEscapedAt text position)

/-- The marked characters that are left without the unescaped blanks. -/
def dropBlanks (marks : List (Char × Bool)) : List (Char × Bool) :=
  marks.filter fun (c, escaped) => escaped || !Text.isBlank c

/-- Whether the marked characters, unescaped blanks apart, begin with the name of a class and a
closing bracket, none of them escaped. -/
def closesClass (marks : List (Char × Bool)) : Bool :=
  CharClass.all.any fun cls =>
    (dropBlanks marks).take 4 == (cls.body ++ [']']).map fun c => (c, false)

/-- An unescaped opening bracket stands at the position, and the characters after it name no
class. -/
def UnknownClassAt (text : List Char) (position : Nat) : Prop :=
  (marked text)[position]? = some ('[', false) ∧
    closesClass ((marked text).drop (position + 1)) = false

instance (text : List Char) (position : Nat) : Decidable (UnknownClassAt text position) :=
  inferInstanceAs (Decidable (_ ∧ _))

end PatternAutomata
