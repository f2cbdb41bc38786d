import Mathlib.Computability.Language
import PatternAutomata.Pattern

/-!
# The language of a pattern

What a pattern means, without automata: the set of words that it matches as a whole.
-/

namespace PatternAutomata

/-- The words made of members of a language, as many as the quantifier allows. -/
def Quantifier.power (language : Language Char) : Quantifier → Language Char
  | .star => KStar.kstar language
  | .optional => 1 + language
  | .plus => language * KStar.kstar language

namespace Pattern

/-- The words that the pattern matches. -/
def language : Pattern → Language Char
  | .literal c => {[c]}
  | .charClass cls => {word | ∃ c, cls.contains c = true ∧ word = [c]}
  | .union left right => left.language + right.language
  | .concat left right => left.language * right.language
  | .quantified mark item => mark.power item.language

end Pattern

end PatternAutomata
