import PatternAutomata.Proofs.Pattern.Verdicts
import PatternAutomata.Proofs.Token.Faults

/-!
# Faults of characters come first

No error of the grammar is a fault of characters, so an error that names one comes from reading the
tokens, which ends before the first of them is looked at.
-/

namespace PatternAutomata.Pattern

theorem BlamedOn.isOfCharacters_eq
    {stop : Nat} {groups : List Nat} {tokens : List PlacedToken} {error : SyntaxError}
    (blamed : BlamedOn stop groups tokens error) : error.fault.isOfCharacters = false := by
  cases blamed with
  | @stop fault ofEnd => cases fault <;> first | rfl | cases ofEnd
  | group ofGrammar _ => exact ofGrammar
  | token ofGrammar _ => exact ofGrammar

theorem isOfCharacters_of_ofTokens
    {sequence : TokenSequence} {error : SyntaxError} (failed : ofTokens sequence = .error error) :
    error.fault.isOfCharacters = false :=
  (blamedOn_of_verdict (verdict_of_ofTokens failed)).isOfCharacters_eq

/-- Parsing fails with a fault of characters exactly if reading does. -/
theorem parse_eq_error_iff_read
    {text : List Char} {error : SyntaxError} (ofCharacters : error.fault.isOfCharacters = true) :
    parse text = .error error ↔ TokenSequence.read text = .error error := by
  rw [parse]
  cases TokenSequence.read text with
  | error other =>
      constructor
      · intro failed
        cases failed
        rfl
      · intro failed
        cases failed
        rfl
  | ok sequence =>
      constructor
      · intro failed
        rw [isOfCharacters_of_ofTokens failed] at ofCharacters
        cases ofCharacters
      · intro failed
        cases failed

/-- Which fault of characters is reported, and where, whatever else is wrong with the text: a
backslash at the end that escapes nothing, or else the first opening bracket that names no class.
Without such a fault the text has tokens. -/
theorem parse_characterFaults (text : List Char) :
    (∀ position, parse text = .error ⟨.trailingEscape, position⟩ ↔
      finalBackslashes text % 2 = 1 ∧ position = text.length - 1) ∧
    (∀ position, parse text = .error ⟨.unknownClass, position⟩ ↔
      finalBackslashes text % 2 = 0 ∧ UnknownClassAt text position ∧
        ∀ earlier < position, ¬UnknownClassAt text earlier) ∧
    ((∃ sequence, TokenSequence.read text = .ok sequence) ↔
      finalBackslashes text % 2 = 0 ∧ ∀ position, ¬UnknownClassAt text position) := by
  have trailing : ∀ position, parse text = .error ⟨.trailingEscape, position⟩ ↔
      TokenSequence.read text = .error ⟨.trailingEscape, position⟩ :=
    fun _ => parse_eq_error_iff_read rfl
  have unknown : ∀ position, parse text = .error ⟨.unknownClass, position⟩ ↔
      TokenSequence.read text = .error ⟨.unknownClass, position⟩ :=
    fun _ => parse_eq_error_iff_read rfl
  simp only [trailing, unknown, ← SignificantChar.firstOpening?_eq_some_iff,
    ← SignificantChar.firstOpening?_eq_none_iff]
  have outcome := TokenSequence.read_failsAt text
  rcases Nat.mod_two_eq_zero_or_one (finalBackslashes text) with even | odd
  · rw [if_neg (by omega)] at outcome
    cases found : SignificantChar.firstOpening? (marked text) with
    | some first =>
        rw [found] at outcome
        have failed : TokenSequence.read text = .error ⟨.unknownClass, first⟩ := outcome
        simp [failed, even]
    | none =>
        rw [found] at outcome
        obtain ⟨sequence, wasRead⟩ := outcome
        simp [wasRead, even]
  · rw [if_pos odd] at outcome
    simp [outcome, odd, eq_comm]

/-- The second bracket names a class, but the first one does not, and the parenthesis is not even
looked at. -/
example :
    let text := ['[', '[', '0', '-', '9', ']', ')']
    UnknownClassAt text 0 ∧ ¬UnknownClassAt text 1 ∧ parse text = .error ⟨.unknownClass, 0⟩ :=
  ⟨by decide, by decide, rfl⟩

end PatternAutomata.Pattern
