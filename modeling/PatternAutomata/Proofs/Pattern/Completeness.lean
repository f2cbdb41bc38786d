import Mathlib.Data.Set.Subsingleton
import PatternAutomata.Proofs.Pattern.Soundness

/-!
# The parser is complete

A run that meets the tokens of a phrase reads the tree of the phrase and goes on with the tokens
behind it, unless the phrase nests its groups too deep.  So tokens have the tree that they derive as
their only tree.
-/

namespace PatternAutomata.Pattern

/-- The run goes on with the given tokens after it has read a phrase of the given kind, which
denotes the tree, into the draft. -/
def GoesOn (stop : Nat) (groups : List OpenGroup) (draft : Draft) (kind : Phrase) (tree : Pattern)
    (rest : List PlacedToken) (outcome : Except SyntaxError Pattern) : Prop :=
  match kind with
  | .atom => outcome = parseRest stop groups draft tree true rest
  | .factor => ∃ repeatable, outcome = parseRest stop groups draft tree repeatable rest
  | .product => ∃ front last repeatable,
      Draft.productWith ⟨draft.alternatives, front⟩ last = tree ∧
        outcome = parseRest stop groups ⟨draft.alternatives, front⟩ last repeatable rest
  | .alternatives => ∃ read last repeatable,
      Draft.finish read last = Draft.finish ⟨draft.alternatives, none⟩ tree ∧
        outcome = parseRest stop groups read last repeatable rest

/-- The run fails because a group is opened inside too many groups. -/
def TooDeep (outcome : Except SyntaxError Pattern) : Prop :=
  ∃ position, outcome = .error ⟨.nestingTooDeep, position⟩

/-- Whether an operand can begin with the token. -/
def beginsOperand : Token → Bool
  | .literal _ | .charClass _ | .openGroup => true
  | .quantifier _ | .pipe | .closeGroup => false

theorem Derives.beginsOperand
    {room : Nat} {kind : Phrase} {tokens : List Token} {tree : Pattern}
    (derives : Derives room kind tokens tree) :
    ∃ first rest, tokens = first :: rest ∧ Pattern.beginsOperand first = true := by
  induction derives with
  | alternative _ ih => exact ih
  | factor _ ih => exact ih
  | once _ ih => exact ih
  | union _ _ ih _ =>
      obtain ⟨first, rest, rfl, begins⟩ := ih
      exact ⟨first, _, rfl, begins⟩
  | concat _ _ ih _ =>
      obtain ⟨first, rest, rfl, begins⟩ := ih
      exact ⟨first, _, rfl, begins⟩
  | quantified _ _ ih =>
      obtain ⟨first, rest, rfl, begins⟩ := ih
      exact ⟨first, _, rfl, begins⟩
  | literal c => exact ⟨_, [], rfl, rfl⟩
  | charClass cls => exact ⟨_, [], rfl, rfl⟩
  | group _ _ => exact ⟨_, _, rfl, rfl⟩

/-- A token that begins an operand makes the factor before it final. -/
theorem parseRest_eq_parseOperand
    {stop position : Nat} {groups : List OpenGroup} {draft : Draft} {last : Pattern}
    {repeatable : Bool} {token : Token} {rest : List PlacedToken}
    (begins : beginsOperand token = true) (need : OperandNeed) :
    parseRest stop groups draft last repeatable (⟨position, token⟩ :: rest) =
      parseOperand stop groups (draft.settle last) need (⟨position, token⟩ :: rest) := by
  cases token with
  | literal c => rfl
  | charClass cls => rfl
  | openGroup => rfl
  | quantifier mark => cases begins
  | pipe => cases begins
  | closeGroup => cases begins

/-- The run on the tokens of a phrase goes on behind them, unless groups are nested too deep. -/
theorem goesOn_of_derives
    {room : Nat} {kind : Phrase} {tokens : List Token} {tree : Pattern}
    (derives : Derives room kind tokens tree) {stop : Nat} {groups : List OpenGroup} {draft : Draft}
    {need : OperandNeed} {placed rest : List PlacedToken}
    (same : placed.map (·.token) = tokens) (allowed : groups.length ≤ maxGroupDepth)
    (fresh : kind = .product ∨ kind = .alternatives → draft.front = none) :
    GoesOn stop groups draft kind tree rest (parseOperand stop groups draft need (placed ++ rest)) ∨
      maxGroupDepth < groups.length + room ∧
        TooDeep (parseOperand stop groups draft need (placed ++ rest)) := by
  induction derives generalizing groups draft need placed rest with
  | alternative product ih =>
      apply (ih same allowed fun _ => fresh (.inr rfl)).imp_left
      intro goesOn
      obtain ⟨front, last, repeatable, rfl, next⟩ := goesOn
      exact ⟨⟨draft.alternatives, front⟩, last, repeatable, rfl, next⟩
  | factor factor ih =>
      have none : draft.front = none := fresh (.inl rfl)
      obtain ⟨alternatives, front⟩ := draft
      subst none
      apply (ih same allowed (by simp)).imp_left
      intro goesOn
      obtain ⟨repeatable, next⟩ := goesOn
      exact ⟨none, _, repeatable, rfl, next⟩
  | once atom ih =>
      apply (ih same allowed (by simp)).imp_left
      intro goesOn
      exact ⟨true, goesOn⟩
  | literal c =>
      obtain ⟨⟨position, token⟩, rfl, rfl⟩ := List.map_eq_singleton_iff.mp same
      exact .inl rfl
  | charClass cls =>
      obtain ⟨⟨position, token⟩, rfl, rfl⟩ := List.map_eq_singleton_iff.mp same
      exact .inl rfl
  | quantified mark atom ih =>
      obtain ⟨before, marked, rfl, sameBefore, sameMark⟩ := List.map_eq_append_iff.mp same
      obtain ⟨⟨position, token⟩, rfl, rfl⟩ := List.map_eq_singleton_iff.mp sameMark
      rw [List.append_assoc]
      apply (ih sameBefore allowed (by simp)).imp_left
      intro goesOn
      exact ⟨false, goesOn⟩
  | concat left right ihLeft ihRight =>
      obtain ⟨lefts, rights, rfl, sameLefts, sameRights⟩ := List.map_eq_append_iff.mp same
      rw [List.append_assoc]
      have readLeft := @ihLeft groups draft need lefts (rights ++ rest) sameLefts allowed fresh
      rcases readLeft with goesOn | tooDeep
      · obtain ⟨front, last, repeatable, rfl, next⟩ := goesOn
        obtain ⟨first, more, whole, begins⟩ := right.beginsOperand
        have readRight := @ihRight groups (Draft.settle ⟨draft.alternatives, front⟩ last) .start
          rights rest sameRights allowed (by simp)
        obtain ⟨⟨position, token⟩, after, rfl, rfl, _⟩ :=
          List.map_eq_cons_iff.mp (sameRights.trans whole)
        rw [next, List.cons_append, parseRest_eq_parseOperand begins .start, ← List.cons_append]
        apply readRight.imp_left
        intro goesOnRight
        obtain ⟨repeatable, nextRight⟩ := goesOnRight
        exact ⟨some _, _, repeatable, rfl, nextRight⟩
      · exact .inr tooDeep
  | union left right ihLeft ihRight =>
      obtain ⟨lefts, barred, rfl, sameLefts, sameBarred⟩ := List.map_eq_append_iff.mp same
      obtain ⟨⟨position, token⟩, rights, rfl, rfl, sameRights⟩ := List.map_eq_cons_iff.mp sameBarred
      rw [List.append_assoc]
      have readLeft := @ihLeft groups draft need lefts (⟨position, .pipe⟩ :: rights ++ rest)
        sameLefts allowed (fun _ => fresh (.inr rfl))
      rcases readLeft with goesOn | tooDeep
      · obtain ⟨front, last, repeatable, rfl, next⟩ := goesOn
        rw [next]
        exact @ihRight groups (Draft.close ⟨draft.alternatives, front⟩ last) .bar rights rest
          sameRights allowed (fun _ => rfl)
      · exact .inr tooDeep
  | @group room _ denoted inner ih =>
      obtain ⟨⟨position, token⟩, closing, rfl, rfl, sameClosing⟩ := List.map_eq_cons_iff.mp same
      obtain ⟨own, last, rfl, sameOwn, sameLast⟩ := List.map_eq_append_iff.mp sameClosing
      obtain ⟨⟨ending, token⟩, rfl, rfl⟩ := List.map_eq_singleton_iff.mp sameLast
      rw [List.cons_append, parseOperand]
      split
      · rename_i full
        exact .inr ⟨by omega, position, rfl⟩
      · rename_i room_left
        have deeper : (⟨draft, position⟩ :: groups : List OpenGroup).length ≤ maxGroupDepth :=
          Nat.lt_of_le_of_ne allowed room_left
        have read := @ih (⟨draft, position⟩ :: groups) .blank (.group position) own
          (⟨ending, .closeGroup⟩ :: rest) sameOwn deeper (fun _ => rfl)
        rw [List.append_assoc]
        rcases read with goesOn | tooDeep
        · obtain ⟨inside, last, repeatable, finished, next⟩ := goesOn
          have whole : inside.finish last = denoted := finished
          subst whole
          exact .inl next
        · obtain ⟨full, tooDeep⟩ := tooDeep
          refine .inr ⟨?_, tooDeep⟩
          rw [List.length_cons] at full
          omega

/-- The tokens of a pattern are read as the tree that they derive, or nest groups too deep for the
room that a pattern has. -/
theorem ofTokens_eq_or_tooDeep
    {room : Nat} {sequence : TokenSequence} {tree : Pattern}
    (derives : Derives room .alternatives (sequence.tokens.map (·.token)) tree) :
    ofTokens sequence = .ok tree ∨ maxGroupDepth < room ∧ TooDeep (ofTokens sequence) := by
  have read := @goesOn_of_derives _ _ _ _ derives sequence.stop [] .blank .start sequence.tokens []
    rfl (Nat.zero_le _) (fun _ => rfl)
  rw [List.append_nil, List.length_nil, Nat.zero_add] at read
  rw [ofTokens_eq_onePass]
  apply read.imp_left
  intro goesOn
  obtain ⟨draft, last, repeatable, finished, next⟩ := goesOn
  have whole : draft.finish last = tree := finished
  subst whole
  exact next

theorem ofTokens_of_derives
    {sequence : TokenSequence} {tree : Pattern}
    (derives : Derives maxGroupDepth .alternatives (sequence.tokens.map (·.token)) tree) :
    ofTokens sequence = .ok tree := by
  rcases ofTokens_eq_or_tooDeep derives with parsed | tooDeep
  · exact parsed
  · exact absurd tooDeep.1 (Nat.lt_irrefl _)

/-- Whatever room is granted, the tokens of a pattern derive no tree but the one that is read. -/
theorem eq_of_ofTokens_of_derives
    {room : Nat} {sequence : TokenSequence} {tree other : Pattern}
    (parsed : ofTokens sequence = .ok tree)
    (derives : Derives room .alternatives (sequence.tokens.map (·.token)) other) :
    other = tree := by
  rcases ofTokens_eq_or_tooDeep derives with read | tooDeep
  · exact Except.ok.inj (read.symm.trans parsed)
  · obtain ⟨_, position, failed⟩ := tooDeep
    rw [parsed] at failed
    cases failed

theorem parse_eq_ok_iff
    {text : List Char} {tree : Pattern} :
    parse text = .ok tree ↔
      ∃ sequence, TokenSequence.read text = .ok sequence ∧ ofTokens sequence = .ok tree := by
  rw [parse]
  cases TokenSequence.read text with
  | error error => simp [bind, Except.bind]
  | ok sequence => simp [bind, Except.bind]

/-- Exactly the texts whose tokens derive a tree are read, as that tree, and tokens derive at most
one tree. -/
theorem parse_eq_ok_iff_derives :
    (∀ text tree, parse text = .ok tree ↔
      ∃ sequence, TokenSequence.read text = .ok sequence ∧
        Derives maxGroupDepth .alternatives (sequence.tokens.map (·.token)) tree) ∧
    ∀ tokens, {tree | Derives maxGroupDepth .alternatives tokens tree}.Subsingleton := by
  constructor
  · intro text tree
    rw [parse_eq_ok_iff]
    constructor
    · intro parsed
      obtain ⟨sequence, read, parsed⟩ := parsed
      exact ⟨sequence, read, derives_of_ofTokens parsed⟩
    · intro derived
      obtain ⟨sequence, read, derives⟩ := derived
      exact ⟨sequence, read, ofTokens_of_derives derives⟩
  · intro tokens tree derives other derivesOther
    have same : (tokens.map (PlacedToken.mk 0)).map (·.token) = tokens := by
      simp [Function.comp_def]
    rw [Set.mem_ofPred_eq, ← same] at derives derivesOther
    have parsed : ofTokens ⟨tokens.map (PlacedToken.mk 0), 0⟩ = .ok other :=
      ofTokens_of_derives derivesOther
    exact eq_of_ofTokens_of_derives parsed derives

end PatternAutomata.Pattern
