import PatternAutomata.Pattern
import PatternAutomata.Token

/-!
# The grammar of patterns

Which sequences of tokens denote which trees.  Alternatives associate to the right and factors to
the left, an atom takes at most one quantifier, and a group denotes what it encloses.  The room of a
phrase is the number of groups that may still be opened inside it.
-/

namespace PatternAutomata.Pattern

/-- The kinds of phrases, each made of the next. -/
inductive Phrase where
  | alternatives
  | product
  | factor
  | atom
deriving DecidableEq

/-- The tokens are a phrase of the given kind, in the given room, that denotes the tree. -/
inductive Derives : Nat → Phrase → List Token → Pattern → Prop where
  | alternative {room : Nat} {tokens : List Token} {tree : Pattern} :
      Derives room .product tokens tree →
      Derives room .alternatives tokens tree
  | union {room : Nat} {lefts rights : List Token} {left right : Pattern} :
      Derives room .product lefts left →
      Derives room .alternatives rights right →
      Derives room .alternatives (lefts ++ .pipe :: rights) (.union left right)
  | factor {room : Nat} {tokens : List Token} {tree : Pattern} :
      Derives room .factor tokens tree →
      Derives room .product tokens tree
  | concat {room : Nat} {lefts rights : List Token} {left right : Pattern} :
      Derives room .product lefts left →
      Derives room .factor rights right →
      Derives room .product (lefts ++ rights) (.concat left right)
  | once {room : Nat} {tokens : List Token} {tree : Pattern} :
      Derives room .atom tokens tree →
      Derives room .factor tokens tree
  | quantified {room : Nat} {tokens : List Token} {tree : Pattern} (mark : Quantifier) :
      Derives room .atom tokens tree →
      Derives room .factor (tokens ++ [.quantifier mark]) (.quantified mark tree)
  | literal {room : Nat} (c : Char) :
      Derives room .atom [.literal c] (.literal c)
  | charClass {room : Nat} (cls : CharClass) :
      Derives room .atom [.charClass cls] (.charClass cls)
  | group {room : Nat} {tokens : List Token} {tree : Pattern} :
      Derives room .alternatives tokens tree →
      Derives (room + 1) .atom (.openGroup :: (tokens ++ [.closeGroup])) tree

end PatternAutomata.Pattern
