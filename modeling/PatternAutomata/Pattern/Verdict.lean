import PatternAutomata.Pattern
import PatternAutomata.SyntaxError
import PatternAutomata.Token

/-!
# Verdicts on token sequences

Whether a sequence of tokens is a pattern is seen in one pass that builds nothing: it remembers the
token before the current one and the positions of the open groups, the innermost first.
-/

namespace PatternAutomata

/-- Whether the fault can be that the text ends where an operand is needed. -/
def SyntaxFault.isOfEnd : SyntaxFault → Bool
  | .emptyAlternative | .unexpectedEnd => true
  | _ => false

namespace Pattern

/-- Whether an operand has to follow the token; at the start there is none. -/
def expectsOperand : Option Token → Bool
  | none | some .pipe | some .openGroup => true
  | _ => false

/-- The first error in the tokens that follow the given one, if there is any. -/
def verdict (stop : Nat) (groups : List Nat) (previous : Option Token) :
    List PlacedToken → Option SyntaxError
  | [] =>
    if expectsOperand previous then
      match previous, groups with
      | some .pipe, _ => some ⟨.emptyAlternative, stop⟩
      | _, innermost :: _ => some ⟨.unclosedGroup, innermost⟩
      | _, [] => some ⟨.unexpectedEnd, stop⟩
    else
      match groups with
      | innermost :: _ => some ⟨.unclosedGroup, innermost⟩
      | [] => none
  | ⟨position, token⟩ :: rest =>
    match token with
    | .literal _ | .charClass _ => verdict stop groups (some token) rest
    | .quantifier _ =>
      if expectsOperand previous || previous.any Token.isQuantifier then
        some ⟨.nothingToRepeat, position⟩
      else verdict stop groups (some token) rest
    | .pipe =>
      if expectsOperand previous then some ⟨.emptyAlternative, position⟩
      else verdict stop groups (some token) rest
    | .openGroup =>
      if groups.length = maxGroupDepth then some ⟨.nestingTooDeep, position⟩
      else verdict stop (position :: groups) (some token) rest
    | .closeGroup =>
      match previous, groups with
      | some .pipe, _ => some ⟨.emptyAlternative, position⟩
      | some .openGroup, innermost :: _ => some ⟨.emptyGroup, innermost⟩
      | _, [] => some ⟨.strayClosing, position⟩
      | _, _ :: outer => verdict stop outer (some token) rest

end Pattern

end PatternAutomata
