import PatternAutomata.Proofs.Pattern.Completeness
import PatternAutomata.Proofs.Token.Insertion

/-!
# Inserting blanks into patterns

The parser carries positions along without looking at them.  So a blank that is inserted outside an
escape changes neither the tree of a pattern nor what is wrong with it, only where.
-/

namespace PatternAutomata.Pattern

def OpenGroup.move (f : Nat → Nat) (group : OpenGroup) : OpenGroup :=
  { group with position := f group.position }

def OperandNeed.move (f : Nat → Nat) : OperandNeed → OperandNeed
  | .start => .start
  | .bar => .bar
  | .group position => .group (f position)

section Move

variable (f : Nat → Nat)

theorem OperandNeed.missingAt_move (need : OperandNeed) (stop : Nat) :
    (need.move f).missingAt (f stop) = (need.missingAt stop).move f := by
  cases need <;> rfl

theorem OperandNeed.closedAt_move (need : OperandNeed) (position : Nat) :
    (need.move f).closedAt (f position) = (need.closedAt position).move f := by
  cases need <;> rfl

/-- A run on moved tokens, with moved groups around it, ends as the run on the tokens does. -/
theorem run_move (stop : Nat) (tokens : List PlacedToken) :
    (∀ groups draft need,
      parseOperand (f stop) (groups.map (.move f)) draft (need.move f) (tokens.map (.move f)) =
        moveOutcome f id (parseOperand stop groups draft need tokens)) ∧
    (∀ groups draft last repeatable,
      parseRest (f stop) (groups.map (.move f)) draft last repeatable (tokens.map (.move f)) =
        moveOutcome f id (parseRest stop groups draft last repeatable tokens)) := by
  induction tokens with
  | nil =>
      constructor
      · intro groups draft need
        exact congrArg Except.error (need.missingAt_move f stop)
      · intro groups draft last repeatable
        cases groups <;> rfl
  | cons head rest ih =>
      obtain ⟨position, token⟩ := head
      obtain ⟨ihOperand, ihRest⟩ := ih
      have opened : ∀ groups outer,
          (if (groups.map (OpenGroup.move f)).length = maxGroupDepth then
              .error ⟨.nestingTooDeep, f position⟩
            else parseOperand (f stop) (⟨outer, f position⟩ :: groups.map (.move f)) .blank
              (.group (f position)) (rest.map (.move f))) =
            moveOutcome f id
              (if groups.length = maxGroupDepth then .error ⟨.nestingTooDeep, position⟩
              else parseOperand stop (⟨outer, position⟩ :: groups) .blank (.group position) rest) := by
        intro groups outer
        rw [List.length_map]
        split
        · rfl
        · exact ihOperand (⟨outer, position⟩ :: groups) .blank (.group position)
      constructor
      · intro groups draft need
        cases token with
        | literal c => exact ihRest groups draft (.literal c) true
        | charClass cls => exact ihRest groups draft (.charClass cls) true
        | quantifier mark => rfl
        | pipe => rfl
        | openGroup => exact opened groups draft
        | closeGroup => exact congrArg Except.error (need.closedAt_move f position)
      · intro groups draft last repeatable
        cases token with
        | literal c => exact ihRest groups (draft.settle last) (.literal c) true
        | charClass cls => exact ihRest groups (draft.settle last) (.charClass cls) true
        | quantifier mark =>
            cases repeatable with
            | true => exact ihRest groups draft (.quantified mark last) false
            | false => rfl
        | pipe => exact ihOperand groups (draft.close last) .bar
        | openGroup => exact opened groups (draft.settle last)
        | closeGroup =>
            cases groups with
            | nil => rfl
            | cons group outer => exact ihRest outer group.draft (draft.finish last) true

theorem ofTokens_move (sequence : TokenSequence) :
    ofTokens (sequence.move f) = moveOutcome f id (ofTokens sequence) := by
  rw [ofTokens_eq_onePass, ofTokens_eq_onePass]
  exact (run_move f sequence.stop sequence.tokens).1 [] .blank .start

end Move

section Insertion

variable {before after : List Char} {blank : Char}

theorem parse_insert
    (isBlank : Text.isBlank blank = true) (outside : endsInEscape before = false) :
    parse (before ++ blank :: after) =
      moveOutcome (afterInsertion before.length) id (parse (before ++ after)) := by
  rw [parse, parse, TokenSequence.read_insert isBlank outside]
  apply bind_moveOutcome
  intro sequence
  exact ofTokens_move _ sequence

/-- A blank that is inserted into a pattern, anywhere but right after a backslash that begins an
escape, leaves the tree or the fault, and moves the position of a fault that does not stand before
it. -/
theorem parse_insert_blank
    (isBlank : Text.isBlank blank = true) (outside : endsInEscape before = false) :
    (∀ tree, parse (before ++ blank :: after) = .ok tree ↔ parse (before ++ after) = .ok tree) ∧
      ∀ fault position, parse (before ++ after) = .error ⟨fault, position⟩ ↔
        parse (before ++ blank :: after) =
          .error ⟨fault, if position < before.length then position else position + 1⟩ := by
  rw [parse_insert isBlank outside]
  constructor
  · intro tree
    exact moveOutcome_id_eq_ok_iff
  · intro fault position
    exact (moveOutcome_eq_error_iff (afterInsertion_injective before.length)).symm

/-- A case inside a class, behind an escaped backslash and in an open group. -/
theorem parse_insert_blank_class :
    let before := ['(', '\\', '\\', '[', '0']
    let after := ['-', '9', ']', '*', '*']
    Text.isBlank '\u3000' = true ∧ endsInEscape before = false ∧
      parse (before ++ after) = .error ⟨.nothingToRepeat, 9⟩ ∧
        parse (before ++ '\u3000' :: after) = .error ⟨.nothingToRepeat, 10⟩ := by
  intro before after
  have isBlank : Text.isBlank '\u3000' = true := by decide
  have outside : endsInEscape before = false := by decide
  have failed : parse (before ++ after) = .error ⟨.nothingToRepeat, 9⟩ := parse_eq_onePass _
  have inserted := @parse_insert_blank before after '\u3000' isBlank outside
  exact ⟨isBlank, outside, failed, (inserted.2 .nothingToRepeat 9).mp failed⟩

end Insertion

end PatternAutomata.Pattern
