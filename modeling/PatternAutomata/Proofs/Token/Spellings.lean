import PatternAutomata.Token.Spelling

/-!
# Spellings of sequences

Spellings compose, and the spelling of a sequence of tokens falls apart where the sequence does.
The spelling of a single token is one of its writings with blanks around it.
-/

namespace PatternAutomata

theorem add_length_cons (position : Nat) (c : Char) (text : List Char) :
    position + (c :: text).length = position + 1 + text.length := by
  rw [List.length_cons]
  omega

def AllBlank (text : List Char) : Prop :=
  ∀ c ∈ text, Text.isBlank c = true

/-- The text writes the token, without blanks before it. -/
inductive Writes : Token → List Char → Prop where
  | escaped (c : Char) : Writes (.literal c) ['\\', c]
  | plain {c : Char} : isPlain c = true → Writes (.literal c) [c]
  | operator {token : Token} {c : Char} : token.operator? = some c → Writes token [c]
  | charClass {cls : CharClass} {spaced : List Char} :
      Spaced cls.text spaced → Writes (.charClass cls) spaced

theorem Writes.eq_of_operator
    {token : Token} {c : Char} {text : List Char}
    (writes : Writes token text) (operator : token.operator? = some c) : text = [c] := by
  cases writes with
  | escaped => cases operator
  | plain => cases operator
  | operator same => rw [Option.some.inj (same.symm.trans operator)]
  | charClass => cases operator

namespace Spells

variable {position : Nat} {text : List Char} {tokens : List PlacedToken}

theorem append
    {more : List Char} {others : List PlacedToken}
    (first : Spells position text tokens) (second : Spells (position + text.length) more others) :
    Spells position (text ++ more) (tokens ++ others) := by
  induction first with
  | nil => exact second
  | blank isBlank _ ih =>
      rw [add_length_cons] at second
      exact .blank isBlank (ih second)
  | escaped c _ ih =>
      rw [add_length_cons, add_length_cons] at second
      exact .escaped c (ih second)
  | plain isPlain _ ih =>
      rw [add_length_cons] at second
      exact .plain isPlain (ih second)
  | operator operator _ ih =>
      rw [add_length_cons] at second
      exact .operator operator (ih second)
  | charClass spaced _ ih =>
      rw [List.length_append, ← Nat.add_assoc] at second
      rw [List.append_assoc]
      exact .charClass spaced (ih second)

theorem of_allBlank (blank : AllBlank text) (position : Nat) : Spells position text [] := by
  induction text generalizing position with
  | nil => exact .nil position
  | cons c text ih =>
      refine .blank (blank c List.mem_cons_self) (ih ?_ (position + 1))
      exact fun d member => blank d (List.mem_cons_of_mem c member)

theorem allBlank (spells : Spells position text []) : AllBlank text := by
  generalize none : ([] : List PlacedToken) = tokens at spells
  induction spells with
  | nil => exact fun c member => absurd member List.not_mem_nil
  | blank isBlank _ ih =>
      intro c member
      rcases List.mem_cons.mp member with rfl | later
      · exact isBlank
      · exact ih none c later
  | escaped => cases none
  | plain => cases none
  | operator => cases none
  | charClass => cases none

/-- The first token is written after some blanks, and the others are spelled by the rest. -/
theorem exists_of_cons
    {first : PlacedToken} (spells : Spells position text (first :: tokens)) :
    ∃ before core rest, text = before ++ (core ++ rest) ∧ AllBlank before ∧
      Writes first.token core ∧ first.position = position + before.length ∧
        Spells (position + before.length + core.length) rest tokens := by
  have noBlank : AllBlank [] := fun _ member => absurd member List.not_mem_nil
  generalize whole : first :: tokens = all at spells
  induction spells with
  | nil => cases whole
  | @blank position text all blank isBlank _ ih =>
      obtain ⟨before, core, rest, rfl, allBlank, writes, placed, spells⟩ := ih whole
      rw [← add_length_cons position blank before] at placed spells
      refine ⟨blank :: before, core, rest, rfl, ?_, writes, placed, spells⟩
      intro c member
      rcases List.mem_cons.mp member with rfl | later
      · exact isBlank
      · exact allBlank c later
  | escaped c rest =>
      cases whole
      exact ⟨[], _, _, rfl, noBlank, .escaped c, rfl, rest⟩
  | plain isPlain rest =>
      cases whole
      exact ⟨[], _, _, rfl, noBlank, .plain isPlain, rfl, rest⟩
  | operator operator rest =>
      cases whole
      exact ⟨[], _, _, rfl, noBlank, .operator operator, rfl, rest⟩
  | charClass spaced rest =>
      cases whole
      exact ⟨[], _, _, rfl, noBlank, .charClass spaced, rfl, rest⟩

theorem exists_of_singleton
    {only : PlacedToken} (spells : Spells position text [only]) :
    ∃ before core after, text = before ++ (core ++ after) ∧ AllBlank before ∧
      Writes only.token core ∧ AllBlank after := by
  obtain ⟨before, core, after, same, blankBefore, writes, _, rest⟩ := spells.exists_of_cons
  exact ⟨before, core, after, same, blankBefore, writes, rest.allBlank⟩

end Spells

theorem Writes.spells
    {token : Token} {core : List Char} (writes : Writes token core) (position : Nat) :
    Spells position core [⟨position, token⟩] := by
  cases writes with
  | escaped c => exact .escaped c (.nil _)
  | plain isPlain => exact .plain isPlain (.nil _)
  | operator operator => exact .operator operator (.nil _)
  | charClass spaced =>
      have spells := Spells.charClass spaced (.nil (position + core.length))
      rwa [List.append_nil] at spells

/-- Where the tokens fall apart, so does their spelling. -/
theorem Spells.exists_of_append
    {position : Nat} {text : List Char} {tokens others : List PlacedToken}
    (spells : Spells position text (tokens ++ others)) :
    ∃ first second, text = first ++ second ∧ Spells position first tokens ∧
      Spells (position + first.length) second others := by
  induction tokens generalizing position text with
  | nil => exact ⟨[], text, rfl, .nil position, spells⟩
  | cons token tokens ih =>
      obtain ⟨before, core, rest, rfl, blank, writes, placed, spellsRest⟩ := spells.exists_of_cons
      obtain ⟨first, second, rfl, spellsFirst, spellsSecond⟩ := ih spellsRest
      have spellsToken : Spells (position + before.length) core [token] := by
        have written := writes.spells (position + before.length)
        rwa [← placed] at written ⊢
      refine ⟨before ++ (core ++ first), second, ?_, ?_, ?_⟩
      · simp only [List.append_assoc]
      · exact (of_allBlank blank position).append (spellsToken.append spellsFirst)
      · rwa [List.length_append, List.length_append, ← Nat.add_assoc, ← Nat.add_assoc]

end PatternAutomata
