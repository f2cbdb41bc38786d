import PatternAutomata.Pattern.Verdict
import PatternAutomata.Proofs.Pattern.OnePass
import PatternAutomata.Proofs.Token.Reading
import PatternAutomata.Token.Faults

/-!
# The parser follows the verdict

The parser fails with the error that one pass over the tokens finds, and returns a tree where that
pass finds none.  The parser does as the pass that builds the tree; the pass that builds nothing
remembers a token where that one remembers why it needs an operand, or whether a quantifier may
follow.
-/

namespace PatternAutomata.Pattern

/-- The outcome is the error that the verdict names, or a tree if it names none. -/
def HasVerdict (outcome : Except SyntaxError Pattern) (verdict : Option SyntaxError) : Prop :=
  match verdict with
  | some error => outcome = .error error
  | none => ∃ tree, outcome = .ok tree

/-- An operand is needed for the given reason after the token, with the given groups open. -/
inductive NeededAfter : OperandNeed → Option Token → List Nat → Prop where
  | start : NeededAfter .start none []
  | bar (groups : List Nat) : NeededAfter .bar (some .pipe) groups
  | group (position : Nat) (groups : List Nat) :
      NeededAfter (.group position) (some .openGroup) (position :: groups)

def openPositions (groups : List OpenGroup) : List Nat :=
  groups.map (·.position)

@[simp]
theorem openPositions_nil : openPositions [] = [] := rfl

@[simp]
theorem openPositions_cons (group : OpenGroup) (groups : List OpenGroup) :
    openPositions (group :: groups) = group.position :: openPositions groups := rfl

@[simp]
theorem length_openPositions (groups : List OpenGroup) :
    (openPositions groups).length = groups.length :=
  List.length_map _

theorem NeededAfter.expectsOperand
    {need : OperandNeed} {previous : Option Token} {groups : List Nat}
    (needed : NeededAfter need previous groups) : expectsOperand previous = true := by
  cases needed <;> rfl

/-- What a run of the pass comes to: for a run that starts where an operand is needed, and for one
after a factor, which is repeatable unless it ends with a quantifier. -/
theorem run_hasVerdict (stop : Nat) (tokens : List PlacedToken) :
    (∀ groups draft need previous,
      NeededAfter need previous (openPositions groups) →
      HasVerdict (parseOperand stop groups draft need tokens)
        (verdict stop (openPositions groups) previous tokens)) ∧
    (∀ groups draft last previous,
      expectsOperand (some previous) = false →
      HasVerdict (parseRest stop groups draft last (!previous.isQuantifier) tokens)
        (verdict stop (openPositions groups) (some previous) tokens)) := by
  induction tokens with
  | nil =>
      constructor
      · intro groups draft need previous needed
        generalize openPositions groups = positions at needed
        cases needed with
        | start => rfl
        | bar => rfl
        | group position positions => rfl
      · intro groups draft last previous operand
        cases groups with
        | nil => simp [verdict, operand, HasVerdict, parseRest]
        | cons group outer => simp [verdict, operand, HasVerdict, parseRest]
  | cons head rest ih =>
      obtain ⟨position, token⟩ := head
      obtain ⟨ihOperand, ihRest⟩ := ih
      have opened : ∀ groups outer,
          HasVerdict
            (if groups.length = maxGroupDepth then .error ⟨.nestingTooDeep, position⟩
              else parseOperand stop (⟨outer, position⟩ :: groups) .blank (.group position) rest)
            (if (openPositions groups).length = maxGroupDepth then
                some ⟨.nestingTooDeep, position⟩
              else verdict stop (position :: openPositions groups) (some .openGroup) rest) := by
        intro groups outer
        rw [length_openPositions]
        split
        · rfl
        · exact ihOperand (⟨outer, position⟩ :: groups) .blank (.group position)
            (some .openGroup) (.group position (openPositions groups))
      constructor
      · intro groups draft need previous needed
        cases token with
        | literal c => exact ihRest groups draft (.literal c) (.literal c) rfl
        | charClass cls => exact ihRest groups draft (.charClass cls) (.charClass cls) rfl
        | quantifier mark => simp [verdict, needed.expectsOperand, HasVerdict, parseOperand]
        | pipe => simp [verdict, needed.expectsOperand, HasVerdict, parseOperand]
        | closeGroup =>
            generalize openPositions groups = positions at needed
            cases needed with
            | start => rfl
            | bar => rfl
            | group position positions => rfl
        | openGroup => exact opened groups draft
      · intro groups draft last previous operand
        cases token with
        | literal c => exact ihRest groups (draft.settle last) (.literal c) (.literal c) rfl
        | charClass cls =>
            exact ihRest groups (draft.settle last) (.charClass cls) (.charClass cls) rfl
        | quantifier mark =>
            cases repeated : previous.isQuantifier with
            | true => simp [verdict, repeated, HasVerdict, parseRest]
            | false =>
                have next := ihRest groups draft (.quantified mark last) (.quantifier mark) rfl
                rw [Token.isQuantifier, Bool.not_true] at next
                simpa [verdict, operand, repeated, parseRest] using next
        | pipe =>
            have next := ihOperand groups (draft.close last) .bar (some .pipe)
              (.bar (openPositions groups))
            simpa [verdict, operand, parseRest] using next
        | openGroup => exact opened groups (draft.settle last)
        | closeGroup =>
            cases groups with
            | nil => cases previous <;> first | rfl | cases operand
            | cons group outer =>
                have next := ihRest outer group.draft (draft.finish last) .closeGroup rfl
                cases previous <;> first | exact next | cases operand

theorem ofTokens_hasVerdict (sequence : TokenSequence) :
    HasVerdict (ofTokens sequence) (verdict sequence.stop [] none sequence.tokens) := by
  rw [ofTokens_eq_onePass]
  exact (run_hasVerdict sequence.stop sequence.tokens).1 [] .blank .start none .start

/-- The parser fails only with the error of the verdict. -/
theorem verdict_of_ofTokens
    {sequence : TokenSequence} {error : SyntaxError} (failed : ofTokens sequence = .error error) :
    verdict sequence.stop [] none sequence.tokens = some error := by
  have outcome := ofTokens_hasVerdict sequence
  cases found : verdict sequence.stop [] none sequence.tokens with
  | none =>
      rw [found] at outcome
      obtain ⟨tree, parsed⟩ := outcome
      cases failed.symm.trans parsed
  | some other =>
      rw [found] at outcome
      cases failed.symm.trans outcome
      rfl

section Blame

variable {stop : Nat} {groups : List Nat} {error : SyntaxError}

/-- The error is one of the grammar.  It stands at a token, at an open group or, if the tokens end too
soon, at their end. -/
inductive BlamedOn (stop : Nat) (groups : List Nat) (tokens : List PlacedToken) :
    SyntaxError → Prop where
  | stop {fault : SyntaxFault} : fault.isOfEnd = true → BlamedOn stop groups tokens ⟨fault, stop⟩
  | group {fault : SyntaxFault} {position : Nat} :
      fault.isOfCharacters = false → position ∈ groups →
      BlamedOn stop groups tokens ⟨fault, position⟩
  | token {fault : SyntaxFault} {token : PlacedToken} :
      fault.isOfCharacters = false → token ∈ tokens →
      BlamedOn stop groups tokens ⟨fault, token.position⟩

theorem BlamedOn.later
    {inner : List Nat} {head : PlacedToken} {rest : List PlacedToken}
    (blamed : BlamedOn stop inner rest error)
    (known : ∀ position ∈ inner, position = head.position ∨ position ∈ groups) :
    BlamedOn stop groups (head :: rest) error := by
  cases blamed with
  | stop ofEnd => exact .stop ofEnd
  | group ofGrammar member =>
      rcases known _ member with rfl | member
      · exact .token ofGrammar List.mem_cons_self
      · exact .group ofGrammar member
  | token ofGrammar member => exact .token ofGrammar (List.mem_cons_of_mem _ member)

/-- The pass over the tokens blames what it has seen. -/
theorem blamedOn_of_verdict
    {previous : Option Token} {tokens : List PlacedToken}
    (found : verdict stop groups previous tokens = some error) :
    BlamedOn stop groups tokens error := by
  induction tokens generalizing groups previous with
  | nil =>
      unfold verdict at found
      split at found
      · split at found
        · cases found
          exact .stop rfl
        · cases found
          exact .group rfl List.mem_cons_self
        · cases found
          exact .stop rfl
      · split at found
        · cases found
          exact .group rfl List.mem_cons_self
        · cases found
  | cons head rest ih =>
      obtain ⟨position, token⟩ := head
      have first : (⟨position, token⟩ : PlacedToken) ∈ ⟨position, token⟩ :: rest :=
        List.mem_cons_self
      cases token with
      | literal _ | charClass _ => exact (ih found).later fun _ member => .inr member
      | quantifier _ | pipe =>
          rw [verdict] at found
          split at found
          · cases found
            exact .token rfl first
          · exact (ih found).later fun _ member => .inr member
      | openGroup =>
          rw [verdict] at found
          split at found
          · cases found
            exact .token rfl first
          · exact (ih found).later fun _ member => List.mem_cons.mp member
      | closeGroup =>
          unfold verdict at found
          dsimp only at found
          split at found
          · cases found
            exact .token rfl first
          · cases found
            exact .group rfl List.mem_cons_self
          · cases found
            exact .token rfl first
          · exact (ih found).later fun _ member => .inr (List.mem_cons_of_mem _ member)

end Blame

/-- On every text that has tokens, parsing fails with the first error that the pass over the tokens
meets, and returns a tree if it meets none. -/
theorem parse_hasVerdict
    {text : List Char} {sequence : TokenSequence} (read : TokenSequence.read text = .ok sequence) :
    HasVerdict (parse text) (verdict text.length [] none sequence.tokens) := by
  have parsed : parse text = ofTokens sequence := by
    rw [parse, read]
    rfl
  rw [parsed, ← (TokenSequence.read_eq_ok_iff.mp read).2]
  exact ofTokens_hasVerdict sequence

theorem parse_hasVerdict_twice_repeated :
    TokenSequence.read ['(', 'a', '*', '*'] =
        .ok ⟨[⟨0, .openGroup⟩, ⟨1, .literal 'a'⟩, ⟨2, .quantifier .star⟩,
          ⟨3, .quantifier .star⟩], 4⟩ ∧
      parse ['(', 'a', '*', '*'] = .error ⟨.nothingToRepeat, 3⟩ :=
  ⟨rfl, @parse_hasVerdict ['(', 'a', '*', '*'] _ rfl⟩

end PatternAutomata.Pattern
