import PatternAutomata.Pattern.Denotation
import PatternAutomata.Proofs.Token.Spellings

/-!
# What a text denotes, by its tokens

A text denotes exactly the languages of the trees that the tokens derive that it spells.
-/

namespace PatternAutomata.Pattern

namespace Denotes

variable {kind : Phrase} {text blanks : List Char} {language : Language Char}

theorem blanksBefore (denotes : Denotes kind text language) (blank : AllBlank blanks) :
    Denotes kind (blanks ++ text) language := by
  induction blanks with
  | nil => exact denotes
  | cons c blanks ih =>
      refine .blankBefore (blank c List.mem_cons_self) (ih ?_)
      exact fun d member => blank d (List.mem_cons_of_mem c member)

theorem blanksAfter (denotes : Denotes kind text language) (blank : AllBlank blanks) :
    Denotes kind (text ++ blanks) language := by
  induction blanks generalizing text with
  | nil => rwa [List.append_nil]
  | cons c blanks ih =>
      have later : AllBlank blanks := fun d member => blank d (List.mem_cons_of_mem c member)
      have whole := ih (.blankAfter (blank c List.mem_cons_self) denotes) later
      rwa [List.append_assoc] at whole

end Denotes

/-- A phrase of tokens denotes the language of its tree, however it is spelled. -/
theorem denotes_of_derives
    {room : Nat} {kind : Phrase} {tokens : List Token} {tree : Pattern}
    (derives : Derives room kind tokens tree) {position : Nat} {text : List Char}
    {placed : List PlacedToken} (spells : Spells position text placed)
    (same : placed.map (·.token) = tokens) :
    Denotes kind text tree.language := by
  induction derives generalizing position text placed with
  | alternative _ ih => exact .alternative (ih spells same)
  | factor _ ih => exact .factor (ih spells same)
  | once _ ih => exact .once (ih spells same)
  | union _ _ ihLeft ihRight =>
      obtain ⟨lefts, barred, rfl, sameLefts, sameBarred⟩ := List.map_eq_append_iff.mp same
      obtain ⟨bar, rights, rfl, isBar, sameRights⟩ := List.map_eq_cons_iff.mp sameBarred
      obtain ⟨left, rest, rfl, spellsLeft, spellsRest⟩ := spells.exists_of_append
      obtain ⟨before, core, right, rfl, blank, writes, _, spellsRight⟩ := spellsRest.exists_of_cons
      rw [isBar] at writes
      have denotesLeft := (ihLeft spellsLeft sameLefts).blanksAfter blank
      have whole := Denotes.union denotesLeft (ihRight spellsRight sameRights)
      simpa [writes.eq_of_operator rfl, language] using whole
  | concat _ _ ihLeft ihRight =>
      obtain ⟨lefts, rights, rfl, sameLefts, sameRights⟩ := List.map_eq_append_iff.mp same
      obtain ⟨left, right, rfl, spellsLeft, spellsRight⟩ := spells.exists_of_append
      exact .concat (ihLeft spellsLeft sameLefts) (ihRight spellsRight sameRights)
  | quantified mark _ ih =>
      obtain ⟨before, marked, rfl, sameBefore, sameMark⟩ := List.map_eq_append_iff.mp same
      obtain ⟨placedMark, rfl, isMark⟩ := List.map_eq_singleton_iff.mp sameMark
      obtain ⟨item, rest, rfl, spellsItem, spellsMark⟩ := spells.exists_of_append
      obtain ⟨blanks, core, after, rfl, blank, writes, blankAfter⟩ := spellsMark.exists_of_singleton
      rw [isMark] at writes
      have denotes := (ih spellsItem sameBefore).blanksAfter blank
      have whole := (Denotes.quantified mark denotes).blanksAfter blankAfter
      simpa [writes.eq_of_operator rfl, language] using whole
  | literal c =>
      obtain ⟨only, rfl, isLiteral⟩ := List.map_eq_singleton_iff.mp same
      obtain ⟨before, core, after, rfl, blank, writes, blankAfter⟩ := spells.exists_of_singleton
      rw [isLiteral] at writes
      have denotes : Denotes .atom core {[c]} := by
        cases writes with
        | escaped => exact .escaped c
        | plain isPlain => exact .plain isPlain
        | operator impossible => cases impossible
      exact (denotes.blanksAfter blankAfter).blanksBefore blank
  | charClass cls =>
      obtain ⟨only, rfl, isClass⟩ := List.map_eq_singleton_iff.mp same
      obtain ⟨before, core, after, rfl, blank, writes, blankAfter⟩ := spells.exists_of_singleton
      rw [isClass] at writes
      cases writes with
      | operator impossible => cases impossible
      | charClass spaced =>
          exact ((Denotes.charClass spaced).blanksAfter blankAfter).blanksBefore blank
  | group _ ih =>
      obtain ⟨opening, closing, rfl, isOpening, sameClosing⟩ := List.map_eq_cons_iff.mp same
      obtain ⟨own, last, rfl, sameOwn, sameLast⟩ := List.map_eq_append_iff.mp sameClosing
      obtain ⟨ending, rfl, isEnding⟩ := List.map_eq_singleton_iff.mp sameLast
      obtain ⟨before, core, rest, rfl, blank, writes, _, spellsRest⟩ := spells.exists_of_cons
      obtain ⟨inner, tail, rfl, spellsInner, spellsTail⟩ := spellsRest.exists_of_append
      obtain ⟨blanks, close, after, rfl, blankInner, writesClose, blankAfter⟩ :=
        spellsTail.exists_of_singleton
      rw [isOpening] at writes
      rw [isEnding] at writesClose
      have denotes := (ih spellsInner sameOwn).blanksAfter blankInner
      have whole := ((Denotes.group denotes).blanksAfter blankAfter).blanksBefore blank
      simpa [writes.eq_of_operator rfl, writesClose.eq_of_operator rfl] using whole

theorem Derives.mono
    {room more : Nat} {kind : Phrase} {tokens : List Token} {tree : Pattern}
    (derives : Derives room kind tokens tree) (le : room ≤ more) :
    Derives more kind tokens tree := by
  induction derives generalizing more with
  | alternative _ ih => exact .alternative (ih le)
  | union _ _ ihLeft ihRight => exact .union (ihLeft le) (ihRight le)
  | factor _ ih => exact .factor (ih le)
  | concat _ _ ihLeft ihRight => exact .concat (ihLeft le) (ihRight le)
  | once _ ih => exact .once (ih le)
  | quantified mark _ ih => exact .quantified mark (ih le)
  | literal c => exact .literal c
  | charClass cls => exact .charClass cls
  | group _ ih =>
      obtain ⟨more, rfl⟩ : ∃ fewer, more = fewer + 1 := ⟨more - 1, by omega⟩
      exact .group (ih (Nat.le_of_succ_le_succ le))

/-- The text, from the given position on, spells tokens that derive a tree for the language. -/
def Reads (position : Nat) (kind : Phrase) (text : List Char) (language : Language Char) : Prop :=
  ∃ placed room tree, Spells position text placed ∧
    Derives room kind (placed.map (·.token)) tree ∧ tree.language = language

/-- A text that denotes a language spells tokens with a tree for this language. -/
theorem reads_of_denotes
    {kind : Phrase} {text : List Char} {language : Language Char}
    (denotes : Denotes kind text language) (position : Nat) :
    Reads position kind text language := by
  induction denotes generalizing position with
  | alternative _ ih =>
      obtain ⟨placed, room, tree, spells, derives, same⟩ := ih position
      exact ⟨placed, room, tree, spells, .alternative derives, same⟩
  | factor _ ih =>
      obtain ⟨placed, room, tree, spells, derives, same⟩ := ih position
      exact ⟨placed, room, tree, spells, .factor derives, same⟩
  | once _ ih =>
      obtain ⟨placed, room, tree, spells, derives, same⟩ := ih position
      exact ⟨placed, room, tree, spells, .once derives, same⟩
  | @union lefts rights _ _ _ _ ihLeft ihRight =>
      obtain ⟨placed, room, tree, spells, derives, rfl⟩ := ihLeft position
      obtain ⟨others, roomRight, right, spellsRight, derivesRight, rfl⟩ :=
        ihRight (position + lefts.length + 1)
      refine ⟨placed ++ ⟨position + lefts.length, .pipe⟩ :: others, max room roomRight,
        .union tree right, spells.append (.operator rfl spellsRight), ?_, rfl⟩
      rw [List.map_append, List.map_cons]
      exact .union (derives.mono (Nat.le_max_left ..)) (derivesRight.mono (Nat.le_max_right ..))
  | @concat lefts rights _ _ _ _ ihLeft ihRight =>
      obtain ⟨placed, room, tree, spells, derives, rfl⟩ := ihLeft position
      obtain ⟨others, roomRight, right, spellsRight, derivesRight, rfl⟩ :=
        ihRight (position + lefts.length)
      refine ⟨placed ++ others, max room roomRight, .concat tree right,
        spells.append spellsRight, ?_, rfl⟩
      rw [List.map_append]
      exact .concat (derives.mono (Nat.le_max_left ..)) (derivesRight.mono (Nat.le_max_right ..))
  | @quantified text _ mark _ ih =>
      obtain ⟨placed, room, tree, spells, derives, rfl⟩ := ih position
      refine ⟨placed ++ [⟨position + text.length, .quantifier mark⟩], room, .quantified mark tree,
        spells.append (.operator rfl (.nil _)), ?_, rfl⟩
      rw [List.map_append]
      exact .quantified mark derives
  | @plain c isPlain =>
      exact ⟨_, 0, .literal c, (Writes.plain isPlain).spells position, .literal c, rfl⟩
  | escaped c =>
      exact ⟨_, 0, .literal c, (Writes.escaped c).spells position, .literal c, rfl⟩
  | @charClass cls _ spaced =>
      exact ⟨_, 0, .charClass cls, (Writes.charClass spaced).spells position, .charClass cls, rfl⟩
  | @group text _ _ ih =>
      obtain ⟨placed, room, tree, spells, derives, rfl⟩ := ih (position + 1)
      refine ⟨⟨position, .openGroup⟩ :: (placed ++ [⟨position + 1 + text.length, .closeGroup⟩]),
        room + 1, tree, .operator rfl (spells.append (.operator rfl (.nil _))), ?_, rfl⟩
      rw [List.map_cons, List.map_append]
      exact .group derives
  | blankBefore isBlank _ ih =>
      obtain ⟨placed, room, tree, spells, derives, same⟩ := ih (position + 1)
      exact ⟨placed, room, tree, .blank isBlank spells, derives, same⟩
  | blankAfter isBlank _ ih =>
      obtain ⟨placed, room, tree, spells, derives, same⟩ := ih position
      have whole := spells.append (.blank isBlank (.nil _))
      rw [List.append_nil] at whole
      exact ⟨placed, room, tree, whole, derives, same⟩

end PatternAutomata.Pattern
