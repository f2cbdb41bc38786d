import PatternAutomata.Pattern.Spelling
import PatternAutomata.Proofs.Pattern.Completeness
import PatternAutomata.Proofs.Pattern.Denotation
import PatternAutomata.Proofs.Token.Reading

/-!
# Canonical spellings

The spelling of a tree is read back as the tree, if the groups that it needs are not nested too
deep.  No other text does better: whatever is read as the tree has as many groups inside one
another.
-/

namespace PatternAutomata

/-- The token written without blanks, and a literal with a backslash. -/
def Token.spelled : Token → List Char
  | .literal c => ['\\', c]
  | token => token.text

theorem Spaced.self (first : Char) (rest : List Char) : Spaced (first :: rest) (first :: rest) := by
  induction rest generalizing first with
  | nil => exact .last first
  | cons next rest ih => exact .next first (ih next)

theorem Token.writes_spelled (token : Token) : Writes token token.spelled := by
  cases token with
  | literal c => exact .escaped c
  | charClass cls => exact .charClass (.self '[' _)
  | quantifier mark => exact .operator rfl
  | pipe => exact .operator rfl
  | openGroup => exact .operator rfl
  | closeGroup => exact .operator rfl

theorem exists_spells_spelled (tokens : List Token) (position : Nat) :
    ∃ placed, Spells position (tokens.flatMap Token.spelled) placed ∧
      placed.map (·.token) = tokens := by
  induction tokens generalizing position with
  | nil => exact ⟨[], .nil position, rfl⟩
  | cons token tokens ih =>
      obtain ⟨placed, spells, same⟩ := ih (position + token.spelled.length)
      refine ⟨⟨position, token⟩ :: placed, (token.writes_spelled.spells position).append spells, ?_⟩
      rw [List.map_cons, same]

namespace Pattern

/-- The tokens of a tree in a place for the given kind of phrase, from those that it has without
parentheses around it. -/
def enclose (place : Phrase) (tree : Pattern) (body : List Token) : List Token :=
  if needsGroup place tree then .openGroup :: (body ++ [.closeGroup]) else body

/-- The tokens of the spelling of a tree in a place for the given kind of phrase. -/
def tokensIn (place : Phrase) (tree : Pattern) : List Token :=
  enclose place tree <|
    match tree with
    | .literal c => [.literal c]
    | .charClass cls => [.charClass cls]
    | .union left right => tokensIn .product left ++ .pipe :: tokensIn .alternatives right
    | .concat left right => tokensIn .product left ++ tokensIn .factor right
    | .quantified mark item => tokensIn .atom item ++ [.quantifier mark]

section Spelling

variable {place : Phrase} {tree : Pattern} {body : List Token}

theorem flatMap_spelled_enclose :
    (enclose place tree body).flatMap Token.spelled =
      if needsGroup place tree then '(' :: (body.flatMap Token.spelled ++ [')'])
      else body.flatMap Token.spelled := by
  rw [enclose]
  split
  · rw [List.flatMap_cons, List.flatMap_append]
    rfl
  · rfl

theorem spellingIn_eq_flatMap (place : Phrase) (tree : Pattern) :
    spellingIn place tree = (tokensIn place tree).flatMap Token.spelled := by
  induction tree generalizing place with
  | literal c =>
      rw [spellingIn, tokensIn, flatMap_spelled_enclose]
      rfl
  | charClass cls =>
      rw [spellingIn, tokensIn, flatMap_spelled_enclose, List.flatMap_singleton]
      rfl
  | union left right ih ihRight =>
      rw [spellingIn, tokensIn, flatMap_spelled_enclose, List.flatMap_append, List.flatMap_cons,
        ih, ihRight]
      rfl
  | concat left right ih ihRight =>
      rw [spellingIn, tokensIn, flatMap_spelled_enclose, List.flatMap_append, ih, ihRight]
  | quantified mark item ih =>
      rw [spellingIn, tokensIn, flatMap_spelled_enclose, List.flatMap_append, ih]
      rfl

end Spelling

section Depth

variable {place other : Phrase} {tree : Pattern}

/-- The groups inside a tree are the same in every place; only one around it may be added. -/
theorem groupDepthIn_eq (place : Phrase) (tree : Pattern) :
    groupDepthIn place tree =
      groupDepthIn tree.phrase tree + if needsGroup place tree then 1 else 0 := by
  have own : needsGroup tree.phrase tree = false := by simp [needsGroup]
  unfold groupDepthIn
  simp only [own]
  split <;> rfl

theorem groupDepthIn_mono (le : place.rank ≤ other.rank) :
    groupDepthIn place tree ≤ groupDepthIn other tree := by
  have kept : needsGroup place tree = true → needsGroup other tree = true := by
    simp only [needsGroup, decide_eq_true_eq]
    omega
  rw [groupDepthIn_eq place, groupDepthIn_eq other]
  apply Nat.add_le_add_left
  by_cases needed : needsGroup place tree = true
  · rw [if_pos needed, if_pos (kept needed)]
  · rw [if_neg needed]
    exact Nat.zero_le _

theorem groupDepthIn_le_succ : groupDepthIn place tree ≤ groupDepthIn other tree + 1 := by
  rw [groupDepthIn_eq place, groupDepthIn_eq other]
  split <;> omega

end Depth

namespace Derives

variable {room : Nat} {kind place : Phrase} {tokens body : List Token} {tree : Pattern}

/-- A phrase is also a phrase of every kind that holds together less tightly. -/
theorem loosen (derives : Derives room kind tokens tree) (le : place.rank ≤ kind.rank) :
    Derives room place tokens tree := by
  cases place with
  | alternatives =>
      cases kind with
      | alternatives => exact derives
      | product => exact .alternative derives
      | factor => exact .alternative (.factor derives)
      | atom => exact .alternative (.factor (.once derives))
  | product =>
      cases kind with
      | alternatives => exact absurd le (by decide)
      | product => exact derives
      | factor => exact .factor derives
      | atom => exact .factor (.once derives)
  | factor =>
      cases kind with
      | alternatives | product => exact absurd le (by decide)
      | factor => exact derives
      | atom => exact .once derives
  | atom =>
      cases kind with
      | alternatives | product | factor => exact absurd le (by decide)
      | atom => exact derives

/-- Parentheses where they are needed make a phrase out of what derives a tree by itself. -/
theorem enclose
    (derives : Derives (groupDepthIn tree.phrase tree) tree.phrase body tree) (place : Phrase) :
    Derives (groupDepthIn place tree) place (Pattern.enclose place tree body) tree := by
  rw [groupDepthIn_eq, Pattern.enclose]
  by_cases needed : needsGroup place tree = true
  · rw [if_pos needed, if_pos needed]
    have grouped := Derives.group (derives.loosen (Nat.zero_le _))
    exact grouped.loosen (by cases place <;> decide)
  · rw [if_neg needed, if_neg needed]
    refine derives.loosen ?_
    simpa [needsGroup] using needed

/-- Whatever tokens derive a tree have room for the groups that it needs. -/
theorem groupDepthIn_le (derives : Derives room kind tokens tree) :
    groupDepthIn kind tree ≤ room := by
  induction derives with
  | alternative _ ih => exact (groupDepthIn_mono (by decide)).trans ih
  | factor _ ih => exact (groupDepthIn_mono (by decide)).trans ih
  | once _ ih => exact (groupDepthIn_mono (by decide)).trans ih
  | union _ _ ih ihRight => exact Nat.max_le.mpr ⟨ih, ihRight⟩
  | concat _ _ ih ihRight => exact Nat.max_le.mpr ⟨ih, ihRight⟩
  | quantified _ _ ih => exact ih
  | literal c => exact Nat.zero_le _
  | charClass cls => exact Nat.zero_le _
  | group _ ih => exact groupDepthIn_le_succ.trans (Nat.succ_le_succ ih)

end Derives

/-- The tokens of the spelling derive the tree, in no more room than its groups need. -/
theorem derives_tokensIn (place : Phrase) (tree : Pattern) :
    Derives (groupDepthIn place tree) place (tokensIn place tree) tree := by
  induction tree generalizing place with
  | literal c =>
      rw [tokensIn]
      exact Derives.enclose (.literal c) place
  | charClass cls =>
      rw [tokensIn]
      exact Derives.enclose (.charClass cls) place
  | union left right ih ihRight =>
      rw [tokensIn]
      apply Derives.enclose
      exact .union ((ih .product).mono (Nat.le_max_left ..))
        ((ihRight .alternatives).mono (Nat.le_max_right ..))
  | concat left right ih ihRight =>
      rw [tokensIn]
      apply Derives.enclose
      exact .concat ((ih .product).mono (Nat.le_max_left ..))
        ((ihRight .factor).mono (Nat.le_max_right ..))
  | quantified mark item ih =>
      rw [tokensIn]
      apply Derives.enclose
      exact .quantified mark (ih .atom)

theorem parse_spelling_of_le {tree : Pattern} (le : tree.groupDepth ≤ maxGroupDepth) :
    parse tree.spelling = .ok tree := by
  obtain ⟨placed, spells, same⟩ := exists_spells_spelled (tokensIn .alternatives tree) 0
  rw [← spellingIn_eq_flatMap] at spells
  have read : TokenSequence.read tree.spelling = .ok ⟨placed, tree.spelling.length⟩ :=
    TokenSequence.read_eq_ok_iff.mpr ⟨spells, rfl⟩
  have derives := (derives_tokensIn .alternatives tree).mono le
  rw [← same] at derives
  exact parse_eq_ok_iff.mpr ⟨_, read, ofTokens_of_derives derives⟩

theorem groupDepth_le_of_parse
    {text : List Char} {tree : Pattern} (parsed : parse text = .ok tree) :
    tree.groupDepth ≤ maxGroupDepth := by
  obtain ⟨sequence, _, ofTokens⟩ := parse_eq_ok_iff.mp parsed
  exact (derives_of_ofTokens ofTokens).groupDepthIn_le

/-- The trees that some text is read as are those whose groups are not nested too deep, and each of
them is read from its spelling. -/
theorem exists_parse_eq_ok_iff_groupDepth_le (tree : Pattern) :
    ((∃ text, parse text = .ok tree) ↔ tree.groupDepth ≤ maxGroupDepth) ∧
      (parse tree.spelling = .ok tree ↔ tree.groupDepth ≤ maxGroupDepth) := by
  constructor
  · constructor
    · intro read
      obtain ⟨text, parsed⟩ := read
      exact groupDepth_le_of_parse parsed
    · intro le
      exact ⟨tree.spelling, parse_spelling_of_le le⟩
  · exact ⟨groupDepth_le_of_parse, parse_spelling_of_le⟩

end Pattern

end PatternAutomata
