import PatternAutomata.Pattern
import PatternAutomata.Token.Lexer

/-!
# Reading in one pass

The tree of a pattern by a single pass over its tokens, with a stack of the groups that are still
open in place of calls within calls.  What has been read of a group is a draft: its complete
alternatives and, for the alternative being read, the product of the factors that no quantifier can
reach any more.  The last factor stays apart, because a quantifier may still follow it.
-/

namespace PatternAutomata.Pattern

/-- What has been read of a group, its last factor apart. -/
structure Draft where
  /-- The complete alternatives, the latest first. -/
  alternatives : List Pattern
  /-- The factors of the current alternative that are final, as one product. -/
  front : Option Pattern
deriving DecidableEq

namespace Draft

def blank : Draft := ⟨[], none⟩

/-- The current alternative, if it ends with the given factor. -/
def productWith (draft : Draft) (last : Pattern) : Pattern :=
  match draft.front with
  | none => last
  | some front => .concat front last

/-- The draft after its last factor became final. -/
def settle (draft : Draft) (last : Pattern) : Draft :=
  { draft with front := some (draft.productWith last) }

/-- The draft after the alternative that ends with the given factor became complete. -/
def close (draft : Draft) (last : Pattern) : Draft :=
  ⟨draft.productWith last :: draft.alternatives, none⟩

/-- The tree of the group, if it ends with the given factor. -/
def finish (draft : Draft) (last : Pattern) : Pattern :=
  draft.alternatives.foldl (fun right left => .union left right) (draft.productWith last)

end Draft

/-- A group that is open around the one being read: its draft up to the parenthesis that interrupts
it, and the position of that parenthesis. -/
structure OpenGroup where
  draft : Draft
  position : Nat
deriving DecidableEq

/-- Why an operand has to come next. -/
inductive OperandNeed where
  /-- nothing has been read -/
  | start
  /-- a bar has just been read -/
  | bar
  /-- the parenthesis at the position has just been read -/
  | group (position : Nat)
deriving DecidableEq

namespace OperandNeed

/-- The error of a pattern that ends where an operand is needed. -/
def missingAt (stop : Nat) : OperandNeed → SyntaxError
  | .start => ⟨.unexpectedEnd, stop⟩
  | .bar => ⟨.emptyAlternative, stop⟩
  | .group position => ⟨.unclosedGroup, position⟩

/-- The error of a closing parenthesis that stands where an operand is needed. -/
def closedAt (position : Nat) : OperandNeed → SyntaxError
  | .start => ⟨.strayClosing, position⟩
  | .bar => ⟨.emptyAlternative, position⟩
  | .group opening => ⟨.emptyGroup, opening⟩

end OperandNeed

mutual

/-- Reads on where an operand has to come next. -/
def parseOperand (stop : Nat) (groups : List OpenGroup) (draft : Draft) (need : OperandNeed) :
    List PlacedToken → Except SyntaxError Pattern
  | [] => .error (need.missingAt stop)
  | ⟨position, token⟩ :: rest =>
    match token with
    | .literal c => parseRest stop groups draft (.literal c) true rest
    | .charClass cls => parseRest stop groups draft (.charClass cls) true rest
    | .quantifier _ => .error ⟨.nothingToRepeat, position⟩
    | .pipe => .error ⟨.emptyAlternative, position⟩
    | .openGroup =>
      if groups.length = maxGroupDepth then .error ⟨.nestingTooDeep, position⟩
      else parseOperand stop (⟨draft, position⟩ :: groups) .blank (.group position) rest
    | .closeGroup => .error (need.closedAt position)

/-- Reads on after a factor, which a quantifier may follow if it is still repeatable. -/
def parseRest (stop : Nat) (groups : List OpenGroup) (draft : Draft) (last : Pattern)
    (repeatable : Bool) : List PlacedToken → Except SyntaxError Pattern
  | [] =>
    match groups with
    | [] => .ok (draft.finish last)
    | group :: _ => .error ⟨.unclosedGroup, group.position⟩
  | ⟨position, token⟩ :: rest =>
    match token with
    | .literal c => parseRest stop groups (draft.settle last) (.literal c) true rest
    | .charClass cls => parseRest stop groups (draft.settle last) (.charClass cls) true rest
    | .quantifier mark =>
      if repeatable then parseRest stop groups draft (.quantified mark last) false rest
      else .error ⟨.nothingToRepeat, position⟩
    | .pipe => parseOperand stop groups (draft.close last) .bar rest
    | .openGroup =>
      if groups.length = maxGroupDepth then .error ⟨.nestingTooDeep, position⟩
      else parseOperand stop (⟨draft.settle last, position⟩ :: groups) .blank (.group position) rest
    | .closeGroup =>
      match groups with
      | [] => .error ⟨.strayClosing, position⟩
      | group :: outer => parseRest stop outer group.draft (draft.finish last) true rest

end

/-- The tree of a sequence of tokens, by one pass over them. -/
def onePass (sequence : TokenSequence) : Except SyntaxError Pattern :=
  parseOperand sequence.stop [] .blank .start sequence.tokens

end PatternAutomata.Pattern
