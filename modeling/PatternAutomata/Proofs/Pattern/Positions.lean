import PatternAutomata.Proofs.Pattern.Faults

/-!
# Where errors stand

Tokens begin at characters of the text, and the parser blames a token, an open group or the end of
the tokens.  So an error stands at a character, except where the end comes too soon.
-/

namespace PatternAutomata

theorem Spaced.length_pos {text spaced : List Char} (spaces : Spaced text spaced) :
    0 < spaced.length := by
  cases spaces <;> simp

/-- Tokens begin at characters of the text that spells them. -/
theorem Spells.position_lt
    {position : Nat} {text : List Char} {tokens : List PlacedToken}
    (spells : Spells position text tokens) :
    ∀ token ∈ tokens, token.position < position + text.length := by
  induction spells with
  | nil => nofun
  | blank _ _ ih =>
      intro token member
      have within := ih token member
      rw [List.length_cons]
      omega
  | escaped c _ ih =>
      simp only [List.forall_mem_cons, List.length_cons]
      refine ⟨by omega, ?_⟩
      intro token member
      have within := ih token member
      omega
  | plain _ _ ih | operator _ _ ih =>
      simp only [List.forall_mem_cons, List.length_cons]
      refine ⟨by omega, ?_⟩
      intro token member
      have within := ih token member
      omega
  | charClass spaced _ ih =>
      have nonempty := spaced.length_pos
      simp only [List.forall_mem_cons, List.length_append]
      refine ⟨by omega, ?_⟩
      intro token member
      have within := ih token member
      omega

namespace Pattern

theorem position_lt_of_read
    {text : List Char} {error : SyntaxError} (failed : TokenSequence.read text = .error error) :
    error.position < text.length := by
  have outcome := TokenSequence.read_failsAt text
  split at outcome
  case isTrue odd =>
      cases failed.symm.trans outcome
      have nonempty : text ≠ [] := by
        rintro rfl
        cases odd
      have positive := List.length_pos_iff.mpr nonempty
      dsimp only
      omega
  case isFalse =>
      cases found : SignificantChar.firstOpening? (marked text) with
      | none =>
          rw [found] at outcome
          obtain ⟨sequence, wasRead⟩ := outcome
          cases failed.symm.trans wasRead
      | some position =>
          rw [found] at outcome
          cases failed.symm.trans outcome
          obtain ⟨unknown, _⟩ := SignificantChar.firstOpening?_eq_some_iff.mp found
          obtain ⟨within, _⟩ := List.getElem?_eq_some_iff.mp unknown.1
          simpa [marked] using within

theorem position_of_ofTokens
    {text : List Char} {sequence : TokenSequence} {error : SyntaxError}
    (wasRead : TokenSequence.read text = .ok sequence) (failed : ofTokens sequence = .error error) :
    error.position < text.length ∨ error.position = text.length ∧ error.fault.isOfEnd = true := by
  obtain ⟨spells, stop⟩ := TokenSequence.read_eq_ok_iff.mp wasRead
  have blamed := blamedOn_of_verdict (verdict_of_ofTokens failed)
  cases blamed with
  | stop ofEnd => exact .inr ⟨stop, ofEnd⟩
  | group _ member => cases member
  | token _ member =>
      have within := spells.position_lt _ member
      rw [Nat.zero_add] at within
      exact .inl within

/-- An error stands at a character of the text, except that the end of the text can be what is
wrong. -/
theorem position_of_parse
    {text : List Char} {error : SyntaxError} (failed : parse text = .error error) :
    error.position < text.length ∨ error.position = text.length ∧ error.fault.isOfEnd = true := by
  rw [parse] at failed
  cases reading : TokenSequence.read text with
  | error other =>
      rw [reading] at failed
      cases failed
      exact .inl (position_lt_of_read reading)
  | ok sequence =>
      rw [reading] at failed
      exact position_of_ofTokens reading failed

end Pattern

end PatternAutomata
