import PatternAutomata.Proofs.Token.Scanning

/-!
# Reading undoes spelling

A text is read as the tokens that it spells, and only as those.
-/

namespace PatternAutomata

namespace PlacedToken

open SignificantChar

theorem group_escaped {position : Nat} {c : Char} {rest : List SignificantChar} :
    group (⟨position, c, true⟩ :: rest) =
      (group rest).map fun following => ⟨position, .literal c⟩ :: following := by
  rw [group]
  cases group rest <;> rfl

theorem group_unescaped
    {position : Nat} {c : Char} {rest : List SignificantChar} (different : c ≠ '[') :
    group (⟨position, c, false⟩ :: rest) =
      (group rest).map fun following => ⟨position, .ofChar c⟩ :: following := by
  rw [group]
  · cases group rest <;> rfl
  · intro _ _ _ _ _ _ same
    exact different same
  · exact different

theorem group_class
    {position : Nat} {c₁ c₂ c₃ c₄ : SignificantChar} {cls : CharClass}
    {rest : List SignificantChar} (named : classOf? c₁ c₂ c₃ c₄ = some cls) :
    group (⟨position, '[', false⟩ :: c₁ :: c₂ :: c₃ :: c₄ :: rest) =
      (group rest).map fun following => ⟨position, .charClass cls⟩ :: following := by
  rw [group]
  simp only [named]
  cases group rest <;> rfl

theorem group_unnamed
    {position : Nat} {c₁ c₂ c₃ c₄ : SignificantChar} {rest : List SignificantChar}
    (unnamed : classOf? c₁ c₂ c₃ c₄ = none) :
    group (⟨position, '[', false⟩ :: c₁ :: c₂ :: c₃ :: c₄ :: rest) =
      .error ⟨.unknownClass, position⟩ := by
  rw [group]
  simp only [unnamed]

theorem group_short
    {position : Nat} {rest : List SignificantChar}
    (short : ∀ c₁ c₂ c₃ c₄ more, rest = c₁ :: c₂ :: c₃ :: c₄ :: more → False) :
    group (⟨position, '[', false⟩ :: rest) = .error ⟨.unknownClass, position⟩ := by
  rw [group]
  exact short

end PlacedToken

/-- A character that opens no class, is no blank and is no backslash is an operator or plain. -/
theorem operator_or_plain
    {c : Char} (notBlank : Text.isBlank c = false) (notEscape : c ≠ '\\') (notClass : c ≠ '[') :
    (Token.ofChar c).operator? = some c ∨ isPlain c = true ∧ Token.ofChar c = .literal c := by
  unfold Token.ofChar
  split
  · exact .inl rfl
  · exact .inl rfl
  · exact .inl rfl
  · exact .inl rfl
  · exact .inl rfl
  · exact .inl rfl
  · refine .inr ⟨?_, rfl⟩
    simp_all [isPlain]

theorem plain_spec
    {c : Char} (plain : isPlain c = true) :
    Token.ofChar c = .literal c ∧ Text.isBlank c = false ∧ c ≠ '\\' ∧ c ≠ '[' := by
  refine ⟨?_, ?_, ?_, ?_⟩
  · unfold Token.ofChar
    split <;> first | rfl | cases plain
  · simp_all [isPlain]
  · simp_all [isPlain]
  · simp_all [isPlain]

theorem operator_spec
    {token : Token} {c : Char} (operator : token.operator? = some c) :
    Token.ofChar c = token ∧ Text.isBlank c = false ∧ c ≠ '\\' ∧ c ≠ '[' := by
  cases token with
  | literal d => cases operator
  | charClass cls => cases operator
  | quantifier mark => cases mark <;> cases operator <;> decide
  | pipe => cases operator; decide
  | openGroup => cases operator; decide
  | closeGroup => cases operator; decide

open SignificantChar PlacedToken

theorem CharClass.plain_of_mem_text
    {cls : CharClass} {c : Char} (member : c ∈ cls.text) :
    Text.isBlank c = false ∧ c ≠ '\\' := by
  have every : (cls.text.all fun c => !Text.isBlank c && c != '\\') = true := by
    cases cls with
    | digit => rfl
    | lower => rfl
    | upper => rfl
  simpa using List.all_eq_true.mp every c member

/-- A spelling of tokens is scanned as significant characters that are grouped into the tokens. -/
theorem Spells.scans
    {position : Nat} {text : List Char} {tokens : List PlacedToken}
    (spells : Spells position text tokens) :
    ∃ characters, Scans position text characters ∧ group characters = .ok tokens := by
  induction spells with
  | nil position => exact ⟨[], .nil position, rfl⟩
  | blank isBlank _ ih =>
      obtain ⟨characters, scans, grouped⟩ := ih
      exact ⟨characters, .blank isBlank scans, grouped⟩
  | escaped c _ ih =>
      obtain ⟨characters, scans, grouped⟩ := ih
      refine ⟨_, .escaped c scans, ?_⟩
      rw [group_escaped, grouped]
      rfl
  | plain plain _ ih =>
      obtain ⟨characters, scans, grouped⟩ := ih
      obtain ⟨same, notBlank, notEscape, notClass⟩ := plain_spec plain
      refine ⟨_, .unescaped notBlank notEscape scans, ?_⟩
      rw [group_unescaped notClass, grouped, same]
      rfl
  | operator operator _ ih =>
      obtain ⟨characters, scans, grouped⟩ := ih
      obtain ⟨same, notBlank, notEscape, notClass⟩ := operator_spec operator
      refine ⟨_, .unescaped notBlank notEscape scans, ?_⟩
      rw [group_unescaped notClass, grouped, same]
      rfl
  | @charClass position _ _ _ cls spaced _ ih =>
      obtain ⟨characters, scans, grouped⟩ := ih
      obtain ⟨first, taken, same, unescaped, whole⟩ :=
        scans.of_spaced spaced fun _ member => CharClass.plain_of_mem_text member
      obtain ⟨rfl, body⟩ := List.cons_eq_cons.mp same
      refine ⟨_, whole, ?_⟩
      obtain ⟨c₁, taken, rfl, _, more⟩ := List.map_eq_cons_iff.mp body.symm
      obtain ⟨c₂, taken, rfl, _, more⟩ := List.map_eq_cons_iff.mp more
      obtain ⟨c₃, taken, rfl, _, more⟩ := List.map_eq_cons_iff.mp more
      obtain ⟨c₄, rfl, _⟩ := List.map_eq_singleton_iff.mp more
      have named : classOf? c₁ c₂ c₃ c₄ = some cls :=
        classOf?_eq_some_iff.mpr ⟨unescaped, body.symm⟩
      change group (⟨position, '[', false⟩ :: c₁ :: c₂ :: c₃ :: c₄ :: characters) = _
      rw [group_class named, grouped]
      rfl

/-- What is grouped into tokens is scanned from spellings of them only. -/
theorem spells_of_scans
    {position : Nat} {text : List Char} {characters : List SignificantChar}
    {tokens : List PlacedToken} (scans : Scans position text characters)
    (grouped : group characters = .ok tokens) :
    Spells position text tokens := by
  induction characters using group.induct generalizing position text tokens with
  | case1 =>
      cases grouped
      exact scans.spells_nil
  | case2 start c rest ih =>
      rw [group_escaped] at grouped
      obtain ⟨following, read, rfl⟩ := exists_of_map_eq_ok grouped
      exact scans.spells_of_escaped fun _ scansRest => .escaped c (ih scansRest read)
  | case3 start c₁ c₂ c₃ c₄ rest unnamed =>
      simp [group, unnamed] at grouped
  | case4 start c₁ c₂ c₃ c₄ rest cls named ih =>
      rw [group_class named] at grouped
      obtain ⟨following, read, rfl⟩ := exists_of_map_eq_ok grouped
      obtain ⟨unescaped, body⟩ := classOf?_eq_some_iff.mp named
      apply scans.spells_of_unescaped
      intro after _ _ scansAfter
      have scansBody : Scans (start + 1) after ([c₁, c₂, c₃, c₄] ++ rest) := scansAfter
      obtain ⟨more, others, rfl, spaced, scansOthers⟩ := scansBody.spaced unescaped '['
      rw [body] at spaced
      refine .charClass spaced (ih ?_ read)
      rwa [add_length_cons]
  | case5 start rest short =>
      rw [group] at grouped
      · cases grouped
      · exact short
  | case6 start c rest _ notClass ih =>
      rw [group_unescaped notClass] at grouped
      obtain ⟨following, read, rfl⟩ := exists_of_map_eq_ok grouped
      apply scans.spells_of_unescaped
      intro after notBlank notEscape scansAfter
      rcases operator_or_plain notBlank notEscape notClass with operator | ⟨plain, same⟩
      · exact .operator operator (ih scansAfter read)
      · rw [same]
        exact .plain plain (ih scansAfter read)

/-- Exactly the tokens that a text spells are read from it. -/
theorem TokenSequence.read_eq_ok_iff
    {text : List Char} {sequence : TokenSequence} :
    TokenSequence.read text = .ok sequence ↔
      Spells 0 text sequence.tokens ∧ sequence.stop = text.length := by
  rw [read]
  constructor
  · intro wasRead
    obtain ⟨scanned, scanning, grouping⟩ := exists_of_bind_eq_ok wasRead
    obtain ⟨tokens, grouped, same⟩ := exists_of_bind_eq_ok grouping
    obtain ⟨scans, stop⟩ := scanFrom_eq_ok_iff.mp scanning
    cases same
    rw [Nat.zero_add] at stop
    exact ⟨spells_of_scans scans grouped, stop⟩
  · intro spelled
    obtain ⟨spells, stop⟩ := spelled
    obtain ⟨characters, scans, grouped⟩ := spells.scans
    rw [scans.scanFrom_eq, Nat.zero_add, ← stop]
    simp [bind, Except.bind, grouped, pure, Except.pure]

end PatternAutomata
