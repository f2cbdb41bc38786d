import PatternAutomata.Text.Blank
import PatternAutomata.Token

/-!
# Spellings of tokens

The texts that stand for a sequence of tokens.  A token has several spellings: blanks may stand
anywhere between tokens and inside the brackets of a class, and a literal may be escaped.
-/

namespace PatternAutomata

/-- Whether the unescaped character is a literal: it is neither a blank nor one of the characters
with a meaning of their own. -/
def isPlain (c : Char) : Bool :=
  !(Text.isBlank c || ['\\', '[', '*', '+', '?', '(', ')', '|'].contains c)

/-- The character that writes the token, for the tokens that only one character can write. -/
def Token.operator? : Token → Option Char
  | .quantifier mark => some mark.glyph
  | .pipe => some '|'
  | .openGroup => some '('
  | .closeGroup => some ')'
  | .literal _ | .charClass _ => none

/-- The second text is the first with blanks after its characters. -/
inductive Spaced : List Char → List Char → Prop where
  | last (c : Char) : Spaced [c] [c]
  | next {text spaced : List Char} (c : Char) :
      Spaced text spaced → Spaced (c :: text) (c :: spaced)
  | blank {text spaced : List Char} {first blank : Char} :
      Text.isBlank blank = true →
      Spaced (first :: text) (first :: spaced) →
      Spaced (first :: text) (first :: blank :: spaced)

/-- The text, whose first character has the given position, spells the tokens. -/
inductive Spells : Nat → List Char → List PlacedToken → Prop where
  | nil (position : Nat) : Spells position [] []
  | blank {position : Nat} {text : List Char} {tokens : List PlacedToken} {blank : Char} :
      Text.isBlank blank = true →
      Spells (position + 1) text tokens →
      Spells position (blank :: text) tokens
  | escaped {position : Nat} {text : List Char} {tokens : List PlacedToken} (c : Char) :
      Spells (position + 2) text tokens →
      Spells position ('\\' :: c :: text) (⟨position, .literal c⟩ :: tokens)
  | plain {position : Nat} {text : List Char} {tokens : List PlacedToken} {c : Char} :
      isPlain c = true →
      Spells (position + 1) text tokens →
      Spells position (c :: text) (⟨position, .literal c⟩ :: tokens)
  | operator {position : Nat} {text : List Char} {tokens : List PlacedToken} {token : Token}
      {c : Char} :
      token.operator? = some c →
      Spells (position + 1) text tokens →
      Spells position (c :: text) (⟨position, token⟩ :: tokens)
  | charClass {position : Nat} {spaced text : List Char} {tokens : List PlacedToken}
      {cls : CharClass} :
      Spaced cls.text spaced →
      Spells (position + spaced.length) text tokens →
      Spells position (spaced ++ text) (⟨position, .charClass cls⟩ :: tokens)

end PatternAutomata
