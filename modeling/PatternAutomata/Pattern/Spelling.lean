import PatternAutomata.Pattern.Grammar

/-!
# Spelling patterns

Writes a tree as a pattern: every literal with a backslash, and parentheses exactly where the tree
stands in a place for a smaller kind of phrase.
-/

namespace PatternAutomata.Pattern

/-- How tightly the parts of a phrase hold together. -/
def Phrase.rank : Phrase → Nat
  | .alternatives => 0
  | .product => 1
  | .factor => 2
  | .atom => 3

/-- The kind of phrase that a tree is without parentheses around it. -/
def phrase : Pattern → Phrase
  | .literal _ | .charClass _ => .atom
  | .union .. => .alternatives
  | .concat .. => .product
  | .quantified .. => .factor

/-- Whether the tree needs parentheses in a place for the given kind of phrase. -/
def needsGroup (place : Phrase) (tree : Pattern) : Bool :=
  tree.phrase.rank < place.rank

/-- The spelling of a tree in a place for the given kind of phrase. -/
def spellingIn (place : Phrase) (tree : Pattern) : List Char :=
  let body := match tree with
    | .literal c => ['\\', c]
    | .charClass cls => cls.text
    | .union left right => spellingIn .product left ++ '|' :: spellingIn .alternatives right
    | .concat left right => spellingIn .product left ++ spellingIn .factor right
    | .quantified mark item => spellingIn .atom item ++ [mark.glyph]
  if needsGroup place tree then '(' :: (body ++ [')']) else body

def spelling (tree : Pattern) : List Char := spellingIn .alternatives tree

/-- The number of groups inside one another that a tree needs in a place for the given kind of
phrase. -/
def groupDepthIn (place : Phrase) (tree : Pattern) : Nat :=
  let inner := match tree with
    | .literal _ | .charClass _ => 0
    | .union left right => max (groupDepthIn .product left) (groupDepthIn .alternatives right)
    | .concat left right => max (groupDepthIn .product left) (groupDepthIn .factor right)
    | .quantified _ item => groupDepthIn .atom item
  if needsGroup place tree then inner + 1 else inner

/-- The number of groups inside one another that a tree needs. -/
def groupDepth (tree : Pattern) : Nat := groupDepthIn .alternatives tree

end PatternAutomata.Pattern
