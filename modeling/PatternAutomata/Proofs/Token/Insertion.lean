import PatternAutomata.Proofs.Token.Reading

/-!
# Inserting blanks into texts

Positions play no part in reading: they are only carried along.  So a blank that is inserted outside
an escape leaves the tokens of a text as they are, and moves those behind it by one.
-/

namespace PatternAutomata

/-- Whether the text ends with a backslash that begins an escape. -/
def endsInEscape : List Char → Bool
  | [] => false
  | ['\\'] => true
  | '\\' :: _ :: rest => endsInEscape rest
  | _ :: rest => endsInEscape rest

theorem endsInEscape_cons {c : Char} {rest : List Char} (different : c ≠ '\\') :
    endsInEscape (c :: rest) = endsInEscape rest := by
  rw [endsInEscape]
  · intro same
    exact absurd same different
  · intro _ _ same
    exact absurd same different

/-- Where the character at a position stands after another one has been inserted at the index. -/
def afterInsertion (index position : Nat) : Nat :=
  if position < index then position else position + 1

theorem afterInsertion_add (index offset : Nat) :
    afterInsertion index (index + offset) = index + 1 + offset := by
  rw [afterInsertion, if_neg (Nat.not_lt.mpr (Nat.le_add_right index offset))]
  omega

theorem afterInsertion_of_lt {index position : Nat} (before : position < index) :
    afterInsertion index position = position :=
  if_pos before

theorem afterInsertion_injective (index : Nat) : Function.Injective (afterInsertion index) := by
  intro first second same
  unfold afterInsertion at same
  split at same <;> split at same <;> omega

def SignificantChar.move (f : Nat → Nat) (character : SignificantChar) : SignificantChar :=
  { character with position := f character.position }

def ScannedText.move (f : Nat → Nat) (scanned : ScannedText) : ScannedText :=
  ⟨scanned.characters.map (.move f), f scanned.stop⟩

def PlacedToken.move (f : Nat → Nat) (token : PlacedToken) : PlacedToken :=
  { token with position := f token.position }

def TokenSequence.move (f : Nat → Nat) (sequence : TokenSequence) : TokenSequence :=
  ⟨sequence.tokens.map (.move f), f sequence.stop⟩

def SyntaxError.move (f : Nat → Nat) (error : SyntaxError) : SyntaxError :=
  { error with position := f error.position }

/-- The outcome with its positions moved: those of its value, or the one of its error. -/
def moveOutcome {α : Type} (f : Nat → Nat) (value : α → α) :
    Except SyntaxError α → Except SyntaxError α
  | .error error => .error (error.move f)
  | .ok result => .ok (value result)

theorem map_moveOutcome
    {α β : Type} {f : Nat → Nat} {value : α → α} {image : β → β} {g h : α → β}
    (commute : ∀ result, h (value result) = image (g result)) (outcome : Except SyntaxError α) :
    (moveOutcome f value outcome).map h = moveOutcome f image (outcome.map g) := by
  cases outcome with
  | error error => rfl
  | ok result => exact congrArg Except.ok (commute result)

theorem bind_moveOutcome
    {α β : Type} {f : Nat → Nat} {value : α → α} {image : β → β} {g h : α → Except SyntaxError β}
    (commute : ∀ result, h (value result) = moveOutcome f image (g result))
    (outcome : Except SyntaxError α) :
    moveOutcome f value outcome >>= h = moveOutcome f image (outcome >>= g) := by
  cases outcome with
  | error error => rfl
  | ok result => exact commute result

theorem moveOutcome_id_eq_ok_iff
    {α : Type} {f : Nat → Nat} {outcome : Except SyntaxError α} {result : α} :
    moveOutcome f id outcome = .ok result ↔ outcome = .ok result := by
  cases outcome with
  | error error => exact ⟨nofun, nofun⟩
  | ok found => rfl

theorem moveOutcome_eq_error_iff
    {α : Type} {f : Nat → Nat} {value : α → α} {outcome : Except SyntaxError α}
    {error : SyntaxError} (injective : Function.Injective f) :
    moveOutcome f value outcome = .error (error.move f) ↔ outcome = .error error := by
  cases outcome with
  | ok result => exact ⟨nofun, nofun⟩
  | error found =>
      constructor
      · intro same
        obtain ⟨fault, position⟩ := error
        obtain ⟨rfl, moved⟩ := SyntaxError.mk.inj (Except.error.inj same)
        obtain rfl := injective moved
        rfl
      · intro same
        rw [Except.error.inj same]
        rfl

namespace SignificantChar

variable {f : Nat → Nat} {position other : Nat}

theorem cons_move (character : SignificantChar) (scanned : ScannedText) :
    (scanned.move f).cons (character.move f) = (scanned.cons character).move f := rfl

theorem follows_add
    (follows : ∀ offset, f (position + offset) = other + offset) (count offset : Nat) :
    f (position + count + offset) = other + count + offset := by
  rw [Nat.add_assoc, follows, Nat.add_assoc]

/-- Scanning the same text from elsewhere moves what is found. -/
theorem scanFrom_move
    {stop otherStop : Nat} (follows : ∀ offset, f (position + offset) = other + offset)
    (stops : f stop = otherStop) (text : List Char) :
    scanFrom other otherStop text = moveOutcome f (.move f) (scanFrom position stop text) := by
  induction position, stop, text using scanFrom.induct generalizing other otherStop with
  | case1 position stop => rw [scanFrom, scanFrom, moveOutcome, ScannedText.move, stops, List.map_nil]
  | case2 position stop =>
      have here : f position = other := follows 0
      rw [scanFrom, scanFrom, moveOutcome, SyntaxError.move, here]
  | case3 position stop c rest ih =>
      have here : f position = other := follows 0
      rw [scanFrom_escaped, scanFrom_escaped, ih (follows_add follows 2) (follows 2)]
      apply map_moveOutcome
      intro scanned
      rw [← cons_move, move, here]
  | case4 position stop c rest notLast notEscaping ih =>
      have here : f position = other := follows 0
      have different := ne_backslash notLast notEscaping
      rw [scanFrom_cons different, scanFrom_cons different,
        ih (follows_add follows 1) (follows 1)]
      apply map_moveOutcome
      intro scanned
      split
      · rfl
      · rw [← cons_move, move, here]

/-- A blank outside an escape is dropped, so it only moves what stands behind it. -/
theorem scanFrom_insert
    {before after : List Char} {blank : Char} (isBlank : Text.isBlank blank = true)
    (outside : endsInEscape before = false) :
    scanFrom position position (before ++ blank :: after) =
      moveOutcome (afterInsertion (position + before.length))
        (.move (afterInsertion (position + before.length)))
        (scanFrom position position (before ++ after)) := by
  induction before using endsInEscape.induct generalizing position with
  | case1 =>
      have different : blank ≠ '\\' := by
        rintro rfl
        exact absurd isBlank (by decide)
      have behind : afterInsertion position position = position + 1 := afterInsertion_add position 0
      rw [List.nil_append, List.nil_append, List.length_nil, Nat.add_zero,
        ← scanFrom_move (afterInsertion_add position) behind, scanFrom_cons different, isBlank]
      cases scanFrom (position + 1) (position + 1) after <;> rfl
  | case2 => cases outside
  | case3 c rest ih =>
      have index : position + ('\\' :: c :: rest).length = position + 2 + rest.length := by
        rw [add_length_cons, add_length_cons]
      have here : position < position + 2 + rest.length := by omega
      rw [List.cons_append, List.cons_append, List.cons_append, List.cons_append,
        scanFrom_escaped, scanFrom_escaped, index, ih outside]
      apply map_moveOutcome
      intro scanned
      rw [← cons_move, move, afterInsertion_of_lt here]
  | case4 c rest notLast notEscaping ih =>
      have different := ne_backslash notLast notEscaping
      have here : position < position + 1 + rest.length := by omega
      rw [endsInEscape_cons different] at outside
      rw [List.cons_append, List.cons_append, scanFrom_cons different, scanFrom_cons different,
        add_length_cons, ih outside]
      apply map_moveOutcome
      intro scanned
      split
      · rfl
      · rw [← cons_move, move, afterInsertion_of_lt here]

end SignificantChar

namespace PlacedToken

open SignificantChar

variable {f : Nat → Nat}

/-- Grouping does not look at positions. -/
theorem group_move (f : Nat → Nat) (characters : List SignificantChar) :
    group (characters.map (.move f)) =
      moveOutcome f (List.map (move f)) (group characters) := by
  induction characters using group.induct with
  | case1 => rfl
  | case2 position c rest ih =>
      have moved : SignificantChar.move f ⟨position, c, true⟩ = ⟨f position, c, true⟩ := rfl
      rw [List.map_cons, moved, group_escaped, group_escaped, ih]
      apply map_moveOutcome
      intro tokens
      rfl
  | case3 position c₁ c₂ c₃ c₄ rest unnamed =>
      have same : classOf? (c₁.move f) (c₂.move f) (c₃.move f) (c₄.move f) = none := unnamed
      rw [group_unnamed unnamed]
      exact group_unnamed same
  | case4 position c₁ c₂ c₃ c₄ rest cls named ih =>
      have same : classOf? (c₁.move f) (c₂.move f) (c₃.move f) (c₄.move f) = some cls := named
      rw [group_class named]
      refine (group_class same).trans ?_
      rw [ih]
      apply map_moveOutcome
      intro tokens
      rfl
  | case5 position rest short =>
      have moved : SignificantChar.move f ⟨position, '[', false⟩ = ⟨f position, '[', false⟩ := rfl
      rw [List.map_cons, moved, group_short short]
      apply group_short
      intro c₁ c₂ c₃ c₄ more whole
      obtain ⟨d₁, _, rfl, _, whole⟩ := List.map_eq_cons_iff.mp whole
      obtain ⟨d₂, _, rfl, _, whole⟩ := List.map_eq_cons_iff.mp whole
      obtain ⟨d₃, _, rfl, _, whole⟩ := List.map_eq_cons_iff.mp whole
      obtain ⟨d₄, more, rfl, _, _⟩ := List.map_eq_cons_iff.mp whole
      exact short d₁ d₂ d₃ d₄ more rfl
  | case6 position c rest _ notClass ih =>
      have moved : SignificantChar.move f ⟨position, c, false⟩ = ⟨f position, c, false⟩ := rfl
      rw [List.map_cons, moved, group_unescaped notClass, group_unescaped notClass, ih]
      apply map_moveOutcome
      intro tokens
      rfl

end PlacedToken

/-- A blank outside an escape only moves the tokens behind it. -/
theorem TokenSequence.read_insert
    {before after : List Char} {blank : Char} (isBlank : Text.isBlank blank = true)
    (outside : endsInEscape before = false) :
    TokenSequence.read (before ++ blank :: after) =
      moveOutcome (afterInsertion before.length) (.move (afterInsertion before.length))
        (TokenSequence.read (before ++ after)) := by
  rw [read, read, SignificantChar.scanFrom_insert isBlank outside, Nat.zero_add]
  apply bind_moveOutcome
  intro scanned
  rw [ScannedText.move, PlacedToken.group_move]
  apply bind_moveOutcome
  intro tokens
  rfl

end PatternAutomata
