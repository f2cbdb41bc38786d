import PatternAutomata.Matcher
import PatternAutomata.Proofs.Nfa.Determinization
import PatternAutomata.Proofs.Pattern.Completeness
import PatternAutomata.Proofs.Pattern.Construction
import PatternAutomata.Proofs.Pattern.Denotation
import PatternAutomata.Proofs.Token.Reading

/-!
# Matchers decide what texts denote

A matcher that is made from the text of a pattern accepts exactly the words of the language that the
text denotes.
-/

namespace PatternAutomata

/-- What the text of a pattern denotes is the language of the tree that is read from it. -/
theorem Pattern.denotes_of_parse
    {text : List Char} {tree : Pattern} (parsed : parse text = .ok tree) :
    Denotes .alternatives text tree.language := by
  obtain ⟨sequence, read, parsed⟩ := parse_eq_ok_iff.mp parsed
  obtain ⟨spells, _⟩ := TokenSequence.read_eq_ok_iff.mp read
  exact denotes_of_derives (derives_of_ofTokens parsed) spells rfl

namespace Matcher

theorem prepare_of_error
    {pattern : List Char} {error : SyntaxError} (failed : Pattern.parse pattern = .error error) :
    prepare pattern = .error error := by
  rw [prepare, failed]
  rfl

theorem prepare_of_ok
    {pattern : List Char} {tree : Pattern} (parsed : Pattern.parse pattern = .ok tree) :
    prepare pattern = .ok (⟨tree.toNfa.determinize⟩,
      .parsed pattern :: .compiled pattern tree.toNfa.states.size ::
        tree.toNfa.determinizeWithLog.2) := by
  rw [prepare, parsed, ← Nfa.fst_determinizeWithLog]
  rfl

theorem ofPattern_eq_ok_iff {text : List Char} {matcher : Matcher} :
    ofPattern text = .ok matcher ↔
      ∃ tree, Pattern.parse text = .ok tree ∧ matcher = ⟨tree.toNfa.determinize⟩ := by
  rw [ofPattern]
  cases parsed : Pattern.parse text with
  | error error =>
      rw [prepare_of_error parsed]
      constructor
      · intro made
        cases made
      · intro made
        obtain ⟨_, impossible, _⟩ := made
        cases impossible
  | ok tree =>
      rw [prepare_of_ok parsed]
      constructor
      · intro made
        cases made
        exact ⟨tree, rfl, rfl⟩
      · intro made
        obtain ⟨_, same, rfl⟩ := made
        cases same
        rfl

theorem accepts_determinize_toNfa {tree : Pattern} {word : List Char} :
    (Matcher.mk tree.toNfa.determinize).accepts word = true ↔ word ∈ tree.language := by
  have closed := tree.built_toNfa.closed
  rw [accepts, Nfa.accepts_determinize closed, ← tree.language_toNfa]
  rfl

/-- A text for which there is a matcher denotes one language, and the matcher accepts exactly the
words of this language. -/
theorem decides_denoted
    {text : List Char} {matcher : Matcher} (made : ofPattern text = .ok matcher) :
    ∃ language, Pattern.Denotes .alternatives text language ∧
      (∀ other, Pattern.Denotes .alternatives text other → other = language) ∧
        ∀ word, matcher.accepts word = true ↔ word ∈ language := by
  obtain ⟨tree, parsed, rfl⟩ := ofPattern_eq_ok_iff.mp made
  refine ⟨tree.language, Pattern.denotes_of_parse parsed, ?_, fun _ => accepts_determinize_toNfa⟩
  intro other denotes
  obtain ⟨sequence, read, parsed⟩ := Pattern.parse_eq_ok_iff.mp parsed
  obtain ⟨placed, room, otherTree, otherSpells, derives, rfl⟩ :=
    Pattern.reads_of_denotes denotes 0
  -- A text is read in one way only, so both denotations are of the same tokens.
  have otherRead : TokenSequence.read text = .ok ⟨placed, text.length⟩ :=
    TokenSequence.read_eq_ok_iff.mpr ⟨otherSpells, rfl⟩
  have same : sequence = ⟨placed, text.length⟩ := Except.ok.inj (read.symm.trans otherRead)
  subst same
  rw [Pattern.eq_of_ofTokens_of_derives parsed derives]

/-- A case with a blank, an escaped character, a class and a group. -/
theorem decides_denoted_group :
    let text := ['(', 'a', '|', '\\', '*', ')', '+', ' ', '[', '0', '-', '9', ']']
    let tree := Pattern.concat
      (.quantified .plus (.union (.literal 'a') (.literal '*'))) (.charClass .digit)
    let matcher := Matcher.mk tree.toNfa.determinize
    ofPattern text = .ok matcher ∧
      ∃ language, Pattern.Denotes .alternatives text language ∧
        (∀ other, Pattern.Denotes .alternatives text other → other = language) ∧
          ∀ word, matcher.accepts word = true ↔ word ∈ language := by
  intro text tree matcher
  have parsed : Pattern.parse text = .ok tree := Pattern.parse_eq_onePass text
  have made : ofPattern text = .ok matcher := ofPattern_eq_ok_iff.mpr ⟨tree, parsed, rfl⟩
  exact ⟨made, decides_denoted made⟩

end Matcher

end PatternAutomata
