import PatternAutomata.Pattern.Grammar
import PatternAutomata.Pattern.Language
import PatternAutomata.Token.Spelling

/-!
# What a text denotes

The grammar of patterns on characters, with the language that every phrase denotes.  It knows
neither tokens nor trees, and does not bound the nesting of groups.
-/

namespace PatternAutomata.Pattern

/-- The text is a phrase of the given kind, and denotes the language. -/
inductive Denotes : Phrase → List Char → Language Char → Prop where
  | alternative {text : List Char} {language : Language Char} :
      Denotes .product text language →
      Denotes .alternatives text language
  | union {lefts rights : List Char} {left right : Language Char} :
      Denotes .product lefts left →
      Denotes .alternatives rights right →
      Denotes .alternatives (lefts ++ '|' :: rights) (left + right)
  | factor {text : List Char} {language : Language Char} :
      Denotes .factor text language →
      Denotes .product text language
  | concat {lefts rights : List Char} {left right : Language Char} :
      Denotes .product lefts left →
      Denotes .factor rights right →
      Denotes .product (lefts ++ rights) (left * right)
  | once {text : List Char} {language : Language Char} :
      Denotes .atom text language →
      Denotes .factor text language
  | quantified {text : List Char} {language : Language Char} (mark : Quantifier) :
      Denotes .atom text language →
      Denotes .factor (text ++ [mark.glyph]) (mark.power language)
  | plain {c : Char} :
      isPlain c = true →
      Denotes .atom [c] {[c]}
  | escaped (c : Char) :
      Denotes .atom ['\\', c] {[c]}
  | charClass {cls : CharClass} {spaced : List Char} :
      Spaced cls.text spaced →
      Denotes .atom spaced {word | ∃ c, cls.contains c = true ∧ word = [c]}
  | group {text : List Char} {language : Language Char} :
      Denotes .alternatives text language →
      Denotes .atom ('(' :: (text ++ [')'])) language
  | blankBefore {kind : Phrase} {text : List Char} {language : Language Char} {blank : Char} :
      Text.isBlank blank = true →
      Denotes kind text language →
      Denotes kind (blank :: text) language
  | blankAfter {kind : Phrase} {text : List Char} {language : Language Char} {blank : Char} :
      Text.isBlank blank = true →
      Denotes kind text language →
      Denotes kind (text ++ [blank]) language

end PatternAutomata.Pattern
