import PatternAutomata.Proofs.Token.Reading

/-!
# Patterns written out

A text that has tokens is made of pieces: a writing of each token, with blanks before it, and blanks
at the end.  Reading such a text gives back the tokens of the pieces, each with the number of
characters before its writing.
-/

namespace PatternAutomata

/-- A token written out after some blanks. -/
structure WrittenToken where
  blanks : List Char
  token : Token
  core : List Char
  allBlank : AllBlank blanks
  writes : Writes token core

/-- A pattern written out, token by token and with blanks at the end. -/
structure WrittenPattern where
  pieces : List WrittenToken
  trailing : List Char
  allBlank : AllBlank trailing

namespace WrittenToken

def text (piece : WrittenToken) : List Char := piece.blanks ++ piece.core

/-- The tokens of the pieces of a text that begins at the given position. -/
def placeFrom (position : Nat) : List WrittenToken → List PlacedToken
  | [] => []
  | piece :: pieces =>
    ⟨position + piece.blanks.length, piece.token⟩ ::
      placeFrom (position + piece.text.length) pieces

theorem spells_piece (piece : WrittenToken) (position : Nat) :
    Spells position piece.text [⟨position + piece.blanks.length, piece.token⟩] :=
  (Spells.of_allBlank piece.allBlank position).append (piece.writes.spells _)

theorem spells_pieces
    {after : List Char} (blank : AllBlank after) (pieces : List WrittenToken) (position : Nat) :
    Spells position (pieces.flatMap text ++ after) (placeFrom position pieces) := by
  induction pieces generalizing position with
  | nil => exact .of_allBlank blank position
  | cons piece pieces ih =>
      rw [List.flatMap_cons, List.append_assoc]
      exact (piece.spells_piece position).append (ih _)

/-- A text that spells tokens falls into pieces that write them. -/
theorem exists_of_spells
    {position : Nat} {source : List Char} {tokens : List PlacedToken}
    (spells : Spells position source tokens) :
    ∃ pieces after, source = pieces.flatMap text ++ after ∧ AllBlank after ∧
      placeFrom position pieces = tokens := by
  induction tokens generalizing position source with
  | nil => exact ⟨[], source, rfl, spells.allBlank, rfl⟩
  | cons first tokens ih =>
      obtain ⟨before, core, rest, rfl, blank, writes, placed, spellsRest⟩ := spells.exists_of_cons
      obtain ⟨pieces, after, rfl, blankAfter, same⟩ := ih spellsRest
      let piece : WrittenToken := ⟨before, first.token, core, blank, writes⟩
      refine ⟨piece :: pieces, after, ?_, blankAfter, ?_⟩
      · rw [List.flatMap_cons, text]
        simp only [List.append_assoc, piece]
      · rw [placeFrom, text, List.length_append, ← Nat.add_assoc, same, ← placed]

end WrittenToken

namespace WrittenPattern

open WrittenToken

def text (written : WrittenPattern) : List Char :=
  written.pieces.flatMap WrittenToken.text ++ written.trailing

/-- The tokens of the pattern, each at the first character of its writing, and the number of all its
characters. -/
def sequence (written : WrittenPattern) : TokenSequence :=
  ⟨placeFrom 0 written.pieces, written.text.length⟩

/-- Reading a pattern that is written out gives its tokens, and whatever has tokens is a pattern
that is written out. -/
theorem read_eq_ok_iff_written {source : List Char} {sequence : TokenSequence} :
    TokenSequence.read source = .ok sequence ↔
      ∃ written : WrittenPattern, written.text = source ∧ written.sequence = sequence := by
  rw [TokenSequence.read_eq_ok_iff]
  constructor
  · intro spelled
    obtain ⟨spells, stop⟩ := spelled
    obtain ⟨pieces, after, rfl, blank, same⟩ := exists_of_spells spells
    refine ⟨⟨pieces, after, blank⟩, rfl, ?_⟩
    obtain ⟨tokens, length⟩ := sequence
    rw [WrittenPattern.sequence, TokenSequence.mk.injEq]
    exact ⟨same, stop.symm⟩
  · intro isWritten
    obtain ⟨written, rfl, rfl⟩ := isWritten
    exact ⟨spells_pieces written.allBlank written.pieces 0, rfl⟩

end WrittenPattern

end PatternAutomata
