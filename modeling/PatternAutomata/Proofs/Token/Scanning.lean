import PatternAutomata.Proofs.Token.Spellings
import PatternAutomata.Token.Lexer

/-!
# Scanning

Which significant characters a text has, as a relation between the two.  Blanks may stand before
any significant character.
-/

namespace PatternAutomata

theorem CharClass.ofBody?_eq_some_iff {characters : List Char} {cls : CharClass} :
    ofBody? characters = some cls ↔ characters = cls.body := by
  constructor
  · intro found
    have same := List.find?_some (p := fun cls : CharClass => cls.body == characters) found
    exact (beq_iff_eq.mp same).symm
  · intro same
    subst same
    cases cls with
    | digit => rfl
    | lower => rfl
    | upper => rfl

namespace SignificantChar

/-- The text, whose first character has the given position, has the given significant characters. -/
inductive Scans : Nat → List Char → List SignificantChar → Prop where
  | nil (position : Nat) : Scans position [] []
  | blank {position : Nat} {text : List Char} {characters : List SignificantChar} {blank : Char} :
      Text.isBlank blank = true →
      Scans (position + 1) text characters →
      Scans position (blank :: text) characters
  | escaped {position : Nat} {text : List Char} {characters : List SignificantChar} (c : Char) :
      Scans (position + 2) text characters →
      Scans position ('\\' :: c :: text) (⟨position, c, true⟩ :: characters)
  | unescaped {position : Nat} {text : List Char} {characters : List SignificantChar} {c : Char} :
      Text.isBlank c = false →
      c ≠ '\\' →
      Scans (position + 1) text characters →
      Scans position (c :: text) (⟨position, c, false⟩ :: characters)

theorem scanFrom_cons
    {position stop : Nat} {c : Char} {text : List Char} (different : c ≠ '\\') :
    scanFrom position stop (c :: text) =
      (scanFrom (position + 1) (position + 1) text).map fun following =>
        if Text.isBlank c then following else following.cons ⟨position, c, false⟩ := by
  rw [scanFrom]
  · cases scanFrom (position + 1) (position + 1) text <;> rfl
  · intro same
    exact absurd same different
  · intro _ _ same
    exact absurd same different

/-- The character before the rest is no backslash if it neither stands alone as one nor escapes. -/
theorem ne_backslash
    {c : Char} {rest : List Char} (notLast : c = '\\' → rest = [] → False)
    (notEscaping : ∀ next after, c = '\\' → rest = next :: after → False) :
    c ≠ '\\' := by
  intro same
  cases rest with
  | nil => exact notLast same rfl
  | cons next after => exact notEscaping next after same rfl

theorem scanFrom_escaped {position stop : Nat} {c : Char} {text : List Char} :
    scanFrom position stop ('\\' :: c :: text) =
      (scanFrom (position + 2) (position + 2) text).map fun following =>
        following.cons ⟨position, c, true⟩ := by
  rw [scanFrom]
  cases scanFrom (position + 2) (position + 2) text <;> rfl

/-- The scan stops behind the last character, be it blank or escaped. -/
theorem Scans.scanFrom_eq
    {position : Nat} {text : List Char} {characters : List SignificantChar}
    (scans : Scans position text characters) :
    scanFrom position position text = .ok ⟨characters, position + text.length⟩ := by
  induction scans with
  | nil position => rfl
  | @blank _ _ _ blank isBlank _ ih =>
      have different : blank ≠ '\\' := by
        intro same
        subst same
        exact absurd isBlank (by decide)
      rw [scanFrom_cons different, ih, isBlank, add_length_cons]
      rfl
  | escaped c _ ih =>
      rw [scanFrom_escaped, ih, add_length_cons, add_length_cons]
      rfl
  | unescaped notBlank different _ ih =>
      rw [scanFrom_cons different, ih, notBlank, add_length_cons]
      rfl

theorem scans_of_scanFrom
    {position stop : Nat} {text : List Char} {scanned : ScannedText}
    (read : scanFrom position stop text = .ok scanned) :
    Scans position text scanned.characters := by
  induction position, stop, text using scanFrom.induct generalizing scanned with
  | case1 position stop =>
      cases read
      exact .nil position
  | case2 position stop => cases read
  | case3 position stop c rest ih =>
      rw [scanFrom_escaped] at read
      obtain ⟨following, readRest, rfl⟩ := exists_of_map_eq_ok read
      exact .escaped c (ih readRest)
  | case4 position stop c rest notLast notEscaped ih =>
      have different := ne_backslash notLast notEscaped
      rw [scanFrom_cons different] at read
      obtain ⟨following, readRest, rfl⟩ := exists_of_map_eq_ok read
      cases isBlank : Text.isBlank c with
      | true => exact .blank isBlank (ih readRest)
      | false => exact .unescaped isBlank different (ih readRest)

theorem scanFrom_eq_ok_iff {position : Nat} {text : List Char} {scanned : ScannedText} :
    scanFrom position position text = .ok scanned ↔
      Scans position text scanned.characters ∧ scanned.stop = position + text.length := by
  constructor
  · intro read
    have scans := scans_of_scanFrom read
    have same := Except.ok.inj (read.symm.trans scans.scanFrom_eq)
    exact ⟨scans, congrArg ScannedText.stop same⟩
  · rintro ⟨scans, stop⟩
    obtain ⟨characters, stop⟩ := scanned
    subst stop
    exact scans.scanFrom_eq

namespace Scans

variable {position start : Nat} {text : List Char} {c : Char} {characters : List SignificantChar}

theorem spells_nil (scans : Scans position text []) : Spells position text [] := by
  generalize none : ([] : List SignificantChar) = characters at scans
  induction scans with
  | nil position => exact .nil position
  | blank isBlank _ ih => exact .blank isBlank (ih none)
  | escaped => cases none
  | unescaped => cases none

/-- What is spelled from an escaped character on is spelled with the blanks before it. -/
theorem spells_of_escaped
    {tokens : List PlacedToken}
    (scans : Scans position text (⟨start, c, true⟩ :: characters))
    (spells : ∀ rest, Scans (start + 2) rest characters →
      Spells start ('\\' :: c :: rest) tokens) :
    Spells position text tokens := by
  generalize whole : (⟨start, c, true⟩ :: characters : List SignificantChar) = all at scans
  induction scans with
  | nil => cases whole
  | blank isBlank _ ih => exact .blank isBlank (ih whole)
  | escaped d rest =>
      cases whole
      exact spells _ rest
  | unescaped => cases whole

/-- What is spelled from an unescaped character on is spelled with the blanks before it. -/
theorem spells_of_unescaped
    {tokens : List PlacedToken}
    (scans : Scans position text (⟨start, c, false⟩ :: characters))
    (spells : ∀ rest, Text.isBlank c = false → c ≠ '\\' → Scans (start + 1) rest characters →
      Spells start (c :: rest) tokens) :
    Spells position text tokens := by
  generalize whole : (⟨start, c, false⟩ :: characters : List SignificantChar) = all at scans
  induction scans with
  | nil => cases whole
  | blank isBlank _ ih => exact .blank isBlank (ih whole)
  | escaped => cases whole
  | unescaped notBlank different rest =>
      cases whole
      exact spells _ notBlank different rest

/-- The next unescaped characters are spaced out behind the one before them. -/
theorem spaced
    {taken : List SignificantChar} (scans : Scans position text (taken ++ characters))
    (plain : ∀ character ∈ taken, character.escaped = false) (c : Char) :
    ∃ more rest, text = more ++ rest ∧ Spaced (c :: taken.map (·.value)) (c :: more) ∧
      Scans (position + more.length) rest characters := by
  generalize whole : taken ++ characters = all at scans
  induction scans generalizing taken c with
  | nil position =>
      obtain ⟨rfl, rfl⟩ := List.append_eq_nil_iff.mp whole
      exact ⟨[], [], rfl, .last c, .nil position⟩
  | @blank position text _ blank isBlank rest ih =>
      cases taken with
      | nil =>
          subst whole
          exact ⟨[], blank :: text, rfl, .last c, .blank isBlank rest⟩
      | cons first taken =>
          obtain ⟨more, after, rfl, spaced, scans⟩ := ih plain c whole
          refine ⟨blank :: more, after, rfl, .blank isBlank spaced, ?_⟩
          rwa [add_length_cons]
  | @escaped position text _ d rest ih =>
      cases taken with
      | nil =>
          subst whole
          exact ⟨[], '\\' :: d :: text, rfl, .last c, .escaped d rest⟩
      | cons first taken =>
          cases whole
          cases plain _ List.mem_cons_self
  | @unescaped position text _ d notBlank different rest ih =>
      cases taken with
      | nil =>
          subst whole
          exact ⟨[], d :: text, rfl, .last c, .unescaped notBlank different rest⟩
      | cons first taken =>
          cases whole
          have plainLater : ∀ character ∈ taken, character.escaped = false :=
            fun character later => plain character (List.mem_cons_of_mem _ later)
          obtain ⟨more, after, rfl, spaced, scans⟩ := ih plainLater d rfl
          refine ⟨d :: more, after, rfl, .next c spaced, ?_⟩
          rwa [add_length_cons]

theorem rest_of_cons
    {head : SignificantChar} (scans : Scans position (c :: text) (head :: characters))
    (notBlank : Text.isBlank c = false) (different : c ≠ '\\') :
    Scans (position + 1) text characters := by
  cases scans with
  | blank isBlank =>
      rw [notBlank] at isBlank
      cases isBlank
  | escaped => exact absurd rfl different
  | unescaped _ _ rest => exact rest

/-- Spaced out characters are scanned one by one. -/
theorem of_spaced
    {values between : List Char} (isSpaced : Spaced values between)
    (plain : ∀ value ∈ values, Text.isBlank value = false ∧ value ≠ '\\')
    (scans : Scans (position + between.length) text characters) :
    ∃ first taken, values = first :: taken.map (·.value) ∧
      (∀ character ∈ taken, character.escaped = false) ∧
        Scans position (between ++ text) (⟨position, first, false⟩ :: (taken ++ characters)) := by
  induction isSpaced generalizing position with
  | last c =>
      obtain ⟨notBlank, different⟩ := plain c List.mem_cons_self
      exact ⟨c, [], rfl, by simp, .unescaped notBlank different scans⟩
  | @next values between c _ ih =>
      obtain ⟨notBlank, different⟩ := plain c List.mem_cons_self
      have plainLater : ∀ value ∈ values, Text.isBlank value = false ∧ value ≠ '\\' :=
        fun value later => plain value (List.mem_cons_of_mem c later)
      rw [add_length_cons] at scans
      obtain ⟨first, taken, rfl, unescaped, rest⟩ := ih plainLater scans
      refine ⟨c, ⟨position + 1, first, false⟩ :: taken, rfl, ?_, .unescaped notBlank different rest⟩
      intro character member
      rcases List.mem_cons.mp member with rfl | later
      · rfl
      · exact unescaped character later
  | @blank values between first blank isBlank _ ih =>
      obtain ⟨notBlank, different⟩ := plain first List.mem_cons_self
      rw [add_length_cons] at scans
      obtain ⟨again, taken, same, unescaped, rest⟩ := ih plain scans
      cases same
      refine ⟨first, taken, rfl, unescaped, .unescaped notBlank different (.blank isBlank ?_)⟩
      exact rest.rest_of_cons notBlank different

end Scans

theorem classOf?_eq_some_iff
    {c₁ c₂ c₃ c₄ : SignificantChar} {cls : CharClass} :
    classOf? c₁ c₂ c₃ c₄ = some cls ↔
      (∀ character ∈ [c₁, c₂, c₃, c₄], character.escaped = false) ∧
        [c₁, c₂, c₃, c₄].map (·.value) = cls.body ++ [']'] := by
  obtain ⟨p₁, v₁, e₁⟩ := c₁
  obtain ⟨p₂, v₂, e₂⟩ := c₂
  obtain ⟨p₃, v₃, e₃⟩ := c₃
  obtain ⟨p₄, v₄, e₄⟩ := c₄
  have closing : [v₁, v₂, v₃, v₄] = cls.body ++ [']'] ↔ [v₁, v₂, v₃] = cls.body ∧ v₄ = ']' := by
    simp [CharClass.body, and_assoc]
  simp only [classOf?, List.map_cons, List.map_nil, closing]
  cases e₁ <;> cases e₂ <;> cases e₃ <;> cases e₄ <;>
    simp [and_comm, CharClass.ofBody?_eq_some_iff]

end SignificantChar

end PatternAutomata
