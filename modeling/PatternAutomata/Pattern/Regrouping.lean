import PatternAutomata.Pattern

/-!
# Regrouped patterns

A group around a part of a concatenation changes how the tree of the pattern nests, and nothing else
about it.  Trees that differ in this way only become one tree when every chain of concatenations is
nested to the left.
-/

namespace PatternAutomata.Pattern

/-- The patterns differ only in how their concatenations are nested, under whatever other nodes. -/
inductive Regrouped : Pattern → Pattern → Prop where
  | refl (pattern : Pattern) : Regrouped pattern pattern
  | symm {first second : Pattern} : Regrouped first second → Regrouped second first
  | trans {first second third : Pattern} :
      Regrouped first second → Regrouped second third → Regrouped first third
  | assoc (first second third : Pattern) :
      Regrouped (.concat first (.concat second third)) (.concat (.concat first second) third)
  | union {left right otherLeft otherRight : Pattern} :
      Regrouped left otherLeft → Regrouped right otherRight →
      Regrouped (.union left right) (.union otherLeft otherRight)
  | concat {left right otherLeft otherRight : Pattern} :
      Regrouped left otherLeft → Regrouped right otherRight →
      Regrouped (.concat left right) (.concat otherLeft otherRight)
  | quantified (mark : Quantifier) {item other : Pattern} :
      Regrouped item other → Regrouped (.quantified mark item) (.quantified mark other)

/-- The pattern behind what comes before it in its chain. -/
def behind : Option Pattern → Pattern → Pattern
  | none, pattern => pattern
  | some before, pattern => .concat before pattern

/-- The pattern with every chain nested to the left, behind what comes before it in its own. -/
def nestLeft : Pattern → Option Pattern → Pattern
  | .literal c, before => behind before (.literal c)
  | .charClass cls, before => behind before (.charClass cls)
  | .union left right, before =>
    behind before (.union (left.nestLeft none) (right.nestLeft none))
  | .concat left right, before => right.nestLeft (some (left.nestLeft before))
  | .quantified mark item, before => behind before (.quantified mark (item.nestLeft none))

end PatternAutomata.Pattern
