import PatternAutomata.Pattern.Automaton
import PatternAutomata.Pattern.Height

/-!
# The construction on a bounded stack

Thompson's construction as a procedure that calls itself.  A call walks along a whole chain in a
loop, and calls again for each member of the chain; only so many calls may be open at once.
-/

namespace PatternAutomata.Pattern

/-- The automaton of a pattern, if it is made with no more than so many calls inside one another. -/
def toNfaWithin : Nat → Pattern → Option (Nfa Nat)
  | 0, _ => none
  | _ + 1, .literal c => some (.oneOf [c])
  | _ + 1, .charClass cls => some (.oneOf cls.chars)
  | depth + 1, .union left right => do
    let lefts ← (union left right).earlierAlternatives.mapM (toNfaWithin depth)
    let last ← toNfaWithin depth (union left right).lastAlternative
    return .alternatives lefts last
  | depth + 1, .concat left right => do
    let first ← toNfaWithin depth (concat left right).firstFactor
    let rights ← (concat left right).laterFactors.mapM (toNfaWithin depth)
    return rights.foldl .followedBy first
  | depth + 1, .quantified mark item => do
    let inner ← toNfaWithin depth item
    return inner.quantified mark

end PatternAutomata.Pattern
