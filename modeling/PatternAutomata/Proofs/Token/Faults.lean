import Mathlib.Data.List.Infix
import PatternAutomata.Proofs.Token.Insertion
import PatternAutomata.Token.Faults

/-!
# Which fault of the characters is reported

Scanning takes escapes in pairs and grouping takes classes five characters at a time; still each
backslash and each bracket is judged as if it stood alone.  A class holds no bracket that could open
another one, so no bracket is passed over.
-/

namespace PatternAutomata

theorem finalBackslashes_concat (text : List Char) (c : Char) :
    finalBackslashes (text ++ [c]) = if c = '\\' then finalBackslashes text + 1 else 0 := by
  rw [finalBackslashes, finalBackslashes, List.reverse_concat, List.takeWhile_cons]
  by_cases same : c = '\\'
  · simp [same]
  · simp [same]

theorem endsInEscape_concat (text : List Char) (c : Char) :
    endsInEscape (text ++ [c]) = (c == '\\' && !endsInEscape text) := by
  induction text using endsInEscape.induct with
  | case1 =>
      by_cases same : c = '\\'
      · subst same
        rfl
      · rw [List.nil_append, endsInEscape_cons same]
        simp [endsInEscape, same]
  | case2 => simp [endsInEscape]
  | case3 d rest ih => exact ih
  | case4 d rest notLast notEscaping ih =>
      have different := SignificantChar.ne_backslash notLast notEscaping
      rw [List.cons_append, endsInEscape_cons different, endsInEscape_cons different, ih]

/-- The end of a text is escaped if it is a run of backslashes of odd length. -/
theorem endsInEscape_eq (text : List Char) :
    endsInEscape text = (finalBackslashes text % 2 == 1) := by
  induction text using List.reverseRecOn with
  | nil => rfl
  | append_singleton text c ih =>
      rw [endsInEscape_concat, finalBackslashes_concat, ih]
      by_cases same : c = '\\'
      · subst same
        rcases Nat.mod_two_eq_zero_or_one (finalBackslashes text) with even | odd
        · simp [even, Nat.add_mod]
        · simp [odd, Nat.add_mod]
      · simp [same]

/-- The characters of a text, each with whether it is escaped, if the first one is or is not. -/
def markFrom (escaped : Bool) : List Char → List (Char × Bool)
  | [] => []
  | c :: rest => (c, escaped) :: markFrom (c == '\\' && !escaped) rest

theorem map_zipIdx_eq_markFrom (before after : List Char) :
    ((after.zipIdx before.length).map fun (c, position) =>
      (c, isEscapedAt (before ++ after) position)) = markFrom (endsInEscape before) after := by
  induction after generalizing before with
  | nil => rfl
  | cons c after ih =>
      have here : isEscapedAt (before ++ c :: after) before.length = endsInEscape before := by
        rw [isEscapedAt, List.take_left, endsInEscape_eq]
      have rest := ih (before ++ [c])
      rw [List.length_append, List.append_assoc, endsInEscape_concat] at rest
      rw [List.zipIdx_cons, List.map_cons, markFrom]
      exact congrArg₂ List.cons (congrArg (Prod.mk c) here) rest

theorem marked_eq_markFrom (text : List Char) : marked text = markFrom false text :=
  map_zipIdx_eq_markFrom [] text

/-- The outcome is the fault at the position that was found, and no error if none was. -/
def FailsAt {α : Type} (fault : SyntaxFault) (found : Option Nat)
    (outcome : Except SyntaxError α) : Prop :=
  match found with
  | some position => outcome = .error ⟨fault, position⟩
  | none => ∃ value, outcome = .ok value

theorem FailsAt.map
    {α β : Type} {fault : SyntaxFault} {found : Option Nat} {outcome : Except SyntaxError α}
    (fails : FailsAt fault found outcome) (f : α → β) :
    FailsAt fault found (outcome.map f) := by
  cases found with
  | some position =>
      rw [FailsAt] at fails
      rw [fails]
      rfl
  | none =>
      obtain ⟨value, rfl⟩ := fails
      exact ⟨f value, rfl⟩

namespace SignificantChar

/-- The marked characters that are scanned as the significant one. -/
def marks (character : SignificantChar) : List (Char × Bool) :=
  if character.escaped then [('\\', false), (character.value, true)]
  else [(character.value, false)]

theorem ne_of_isBlank {blank c : Char} (isBlank : Text.isBlank blank = true)
    (notBlank : Text.isBlank c = false) : blank ≠ c := by
  rintro rfl
  rw [notBlank] at isBlank
  cases isBlank

theorem dropBlanks_cons (c : Char) (escaped : Bool) (rest : List (Char × Bool)) :
    dropBlanks ((c, escaped) :: rest) =
      if escaped || !Text.isBlank c then (c, escaped) :: dropBlanks rest else dropBlanks rest :=
  List.filter_cons

theorem Scans.dropBlanks_markFrom
    {position : Nat} {text : List Char} {characters : List SignificantChar}
    (scans : Scans position text characters) :
    dropBlanks (markFrom false text) = characters.flatMap marks := by
  have notBlankEscape : Text.isBlank '\\' = false := by decide
  induction scans with
  | nil => rfl
  | @blank _ _ _ blank isBlank _ ih =>
      have different : blank ≠ '\\' := ne_of_isBlank isBlank notBlankEscape
      rw [markFrom, beq_false_of_ne different, Bool.false_and, dropBlanks_cons, isBlank, ih]
      rfl
  | escaped c _ ih =>
      rw [markFrom, markFrom, dropBlanks_cons, dropBlanks_cons, notBlankEscape, List.flatMap_cons,
        ← ih]
      simp [marks]
  | unescaped notBlank different _ ih =>
      rw [markFrom, beq_false_of_ne different, Bool.false_and, dropBlanks_cons, notBlank, ih,
        List.flatMap_cons]
      rfl

/-- Unescaped characters that hold no backslash are found first among the marked characters exactly
if they are found first among the significant ones. -/
theorem take_marks_iff
    {wanted : List Char} (plain : '\\' ∉ wanted) (characters : List SignificantChar) :
    (characters.flatMap marks).take wanted.length = wanted.map (fun c => (c, false)) ↔
      (characters.take wanted.length).map (fun character => (character.value, character.escaped)) =
        wanted.map (fun c => (c, false)) := by
  induction wanted generalizing characters with
  | nil => simp
  | cons c wanted ih =>
      have different : '\\' ≠ c := fun same => plain (same ▸ List.mem_cons_self)
      have plainRest : '\\' ∉ wanted := fun later => plain (List.mem_cons_of_mem _ later)
      cases characters with
      | nil => simp
      | cons character characters =>
          rw [List.flatMap_cons, marks]
          cases isEscaped : character.escaped with
          | true => simp [different, isEscaped]
          | false => simp [ih plainRest, isEscaped]

theorem map_pairs_iff (characters : List SignificantChar) (wanted : List Char) :
    characters.map (fun character => (character.value, character.escaped)) =
        wanted.map (fun c => (c, false)) ↔
      (∀ character ∈ characters, character.escaped = false) ∧
        characters.map (·.value) = wanted := by
  induction characters generalizing wanted with
  | nil => cases wanted <;> simp
  | cons character characters ih =>
      cases wanted with
      | nil => simp
      | cons c wanted =>
          simp only [List.map_cons, List.cons.injEq, Prod.mk.injEq, ih, List.forall_mem_cons]
          constructor
          · rintro ⟨⟨value, plain⟩, plainRest, values⟩
            exact ⟨⟨plain, plainRest⟩, value, values⟩
          · rintro ⟨⟨plain, plainRest⟩, value, values⟩
            exact ⟨⟨value, plain⟩, plainRest, values⟩

/-- Whether the characters begin with four that name a class behind an opening bracket. -/
def namesClass : List SignificantChar → Bool
  | c₁ :: c₂ :: c₃ :: c₄ :: _ => (classOf? c₁ c₂ c₃ c₄).isSome
  | _ => false

theorem exists_of_namesClass {characters : List SignificantChar}
    (names : namesClass characters = true) :
    ∃ c₁ c₂ c₃ c₄ rest cls,
      characters = c₁ :: c₂ :: c₃ :: c₄ :: rest ∧ classOf? c₁ c₂ c₃ c₄ = some cls := by
  unfold namesClass at names
  split at names
  · obtain ⟨cls, named⟩ := Option.isSome_iff_exists.mp names
    exact ⟨_, _, _, _, _, cls, rfl, named⟩
  · cases names

theorem namesClass_iff {characters : List SignificantChar} :
    namesClass characters = true ↔
      ∃ cls : CharClass, (characters.flatMap marks).take 4 =
        (cls.body ++ [']']).map fun c => (c, false) := by
  have plain : ∀ cls : CharClass, '\\' ∉ cls.body ++ [']'] := by
    intro cls
    cases cls with
    | digit => decide
    | lower => decide
    | upper => decide
  have taken : ∀ cls : CharClass,
      (characters.flatMap marks).take 4 = (cls.body ++ [']']).map (fun c => (c, false)) ↔
        (∀ character ∈ characters.take 4, character.escaped = false) ∧
          (characters.take 4).map (·.value) = cls.body ++ [']'] := fun cls =>
    (take_marks_iff (plain cls) characters).trans (map_pairs_iff _ _)
  simp only [taken]
  constructor
  · intro names
    obtain ⟨c₁, c₂, c₃, c₄, rest, cls, rfl, named⟩ := exists_of_namesClass names
    exact ⟨cls, classOf?_eq_some_iff.mp named⟩
  · intro found
    obtain ⟨cls, unescaped, values⟩ := found
    obtain ⟨c₁, more, whole, _, rest⟩ := List.map_eq_cons_iff.mp values
    obtain ⟨c₂, more, rfl, _, rest⟩ := List.map_eq_cons_iff.mp rest
    obtain ⟨c₃, more, rfl, _, rest⟩ := List.map_eq_cons_iff.mp rest
    obtain ⟨c₄, rfl, _⟩ := List.map_eq_singleton_iff.mp rest
    rw [whole] at unescaped values
    have named := classOf?_eq_some_iff.mpr ⟨unescaped, values⟩
    rw [← List.take_append_drop 4 characters, whole]
    exact Option.isSome_iff_exists.mpr ⟨cls, named⟩

theorem Scans.namesClass_eq
    {position : Nat} {text : List Char} {characters : List SignificantChar}
    (scans : Scans position text characters) :
    namesClass characters = closesClass (markFrom false text) := by
  have all : ∀ cls : CharClass, cls ∈ CharClass.all := by
    intro cls
    cases cls <;> decide
  rw [Bool.eq_iff_iff, namesClass_iff, closesClass, scans.dropBlanks_markFrom, List.any_eq_true]
  constructor
  · intro named
    obtain ⟨cls, same⟩ := named
    exact ⟨cls, all cls, beq_iff_eq.mpr same⟩
  · intro named
    obtain ⟨cls, _, same⟩ := named
    exact ⟨cls, beq_iff_eq.mp same⟩

/-- The position of the first unescaped opening bracket that names no class. -/
def firstUnknown? : List SignificantChar → Option Nat
  | [] => none
  | character :: rest =>
    if character.value == '[' && !character.escaped && !namesClass rest then some character.position
    else firstUnknown? rest

theorem firstUnknown?_of_escaped {position : Nat} {c : Char} {rest : List SignificantChar} :
    firstUnknown? (⟨position, c, true⟩ :: rest) = firstUnknown? rest := by
  simp [firstUnknown?]

theorem firstUnknown?_of_ne {character : SignificantChar} {rest : List SignificantChar}
    (different : character.value ≠ '[') :
    firstUnknown? (character :: rest) = firstUnknown? rest := by
  simp [firstUnknown?, different]

/-- No character of a class is an opening bracket, so none is passed over with the class. -/
theorem firstUnknown?_of_class
    {position : Nat} {c₁ c₂ c₃ c₄ : SignificantChar} {cls : CharClass}
    {rest : List SignificantChar} (named : classOf? c₁ c₂ c₃ c₄ = some cls) :
    firstUnknown? (⟨position, '[', false⟩ :: c₁ :: c₂ :: c₃ :: c₄ :: rest) =
      firstUnknown? rest := by
  have noBracket : '[' ∉ cls.body ++ [']'] := by
    cases cls with
    | digit => decide
    | lower => decide
    | upper => decide
  have apart : ∀ character ∈ [c₁, c₂, c₃, c₄], character.value ≠ '[' := by
    intro character member same
    rw [← (classOf?_eq_some_iff.mp named).2, ← same] at noBracket
    exact noBracket (List.mem_map_of_mem member)
  have passed : firstUnknown? (⟨position, '[', false⟩ :: c₁ :: c₂ :: c₃ :: c₄ :: rest) =
      firstUnknown? (c₁ :: c₂ :: c₃ :: c₄ :: rest) := by
    simp [firstUnknown?, namesClass, named]
  rw [passed, firstUnknown?_of_ne (apart c₁ (by simp)), firstUnknown?_of_ne (apart c₂ (by simp)),
    firstUnknown?_of_ne (apart c₃ (by simp)), firstUnknown?_of_ne (apart c₄ (by simp))]

theorem namesClass_of_short
    {rest : List SignificantChar}
    (short : ∀ c₁ c₂ c₃ c₄ more, rest = c₁ :: c₂ :: c₃ :: c₄ :: more → False) :
    namesClass rest = false := by
  rw [Bool.eq_false_iff]
  intro names
  obtain ⟨c₁, c₂, c₃, c₄, more, _, whole, _⟩ := exists_of_namesClass names
  exact short c₁ c₂ c₃ c₄ more whole

/-- Grouping fails at the first bracket that names no class, and succeeds if there is none. -/
theorem group_failsAt (characters : List SignificantChar) :
    FailsAt .unknownClass (firstUnknown? characters) (PlacedToken.group characters) := by
  induction characters using PlacedToken.group.induct with
  | case1 => exact ⟨[], rfl⟩
  | case2 position c rest ih =>
      rw [firstUnknown?_of_escaped, PlacedToken.group_escaped]
      exact ih.map _
  | case3 position c₁ c₂ c₃ c₄ rest unnamed =>
      have here : firstUnknown? (⟨position, '[', false⟩ :: c₁ :: c₂ :: c₃ :: c₄ :: rest) =
          some position := by
        simp [firstUnknown?, namesClass, unnamed]
      rw [here]
      exact PlacedToken.group_unnamed unnamed
  | case4 position c₁ c₂ c₃ c₄ rest cls named ih =>
      rw [firstUnknown?_of_class named, PlacedToken.group_class named]
      exact ih.map _
  | case5 position rest short =>
      have here : firstUnknown? (⟨position, '[', false⟩ :: rest) = some position := by
        simp [firstUnknown?, namesClass_of_short short]
      rw [here]
      exact PlacedToken.group_short short
  | case6 position c rest _ notClass ih =>
      rw [firstUnknown?_of_ne notClass, PlacedToken.group_unescaped notClass]
      exact ih.map _

/-- Scanning fails at the last character if that is a backslash that begins an escape. -/
theorem scanFrom_failsAt (position stop : Nat) (text : List Char) :
    FailsAt .trailingEscape
      (if endsInEscape text then some (position + text.length - 1) else none)
      (scanFrom position stop text) := by
  induction position, stop, text using scanFrom.induct with
  | case1 position stop => exact ⟨⟨[], stop⟩, rfl⟩
  | case2 position => rfl
  | case3 position stop c rest ih =>
      have sameEnd : position + ('\\' :: c :: rest).length = position + 2 + rest.length := by
        rw [add_length_cons, add_length_cons]
      rw [scanFrom_escaped, endsInEscape, sameEnd]
      exact ih.map _
  | case4 position stop c rest notLast notEscaping ih =>
      have different := ne_backslash notLast notEscaping
      rw [scanFrom_cons different, endsInEscape_cons different, add_length_cons]
      exact ih.map _

/-- Whether the marked characters begin with an unescaped opening bracket that names no class. -/
def opensNoClass : List (Char × Bool) → Bool
  | [] => false
  | (c, escaped) :: rest => c == '[' && !escaped && !closesClass rest

/-- The place of the first opening bracket that names no class. -/
def firstOpening? (marks : List (Char × Bool)) : Option Nat :=
  marks.tails.findIdx? opensNoClass

theorem map_firstOpening?_cons (position : Nat) (mark : Char × Bool) (rest : List (Char × Bool)) :
    (firstOpening? (mark :: rest)).map (position + ·) =
      if opensNoClass (mark :: rest) then some position
      else (firstOpening? rest).map (position + 1 + ·) := by
  rw [firstOpening?, List.tails_cons, List.findIdx?_cons]
  split
  · rfl
  · rw [Option.map_map]
    apply congrFun (congrArg Option.map _)
    funext place
    exact Nat.add_right_comm position place 1

/-- The first bracket that names no class is the same among the significant characters and in the
text. -/
theorem Scans.firstUnknown?_eq
    {position : Nat} {text : List Char} {characters : List SignificantChar}
    (scans : Scans position text characters) :
    firstUnknown? characters = (firstOpening? (markFrom false text)).map (position + ·) := by
  induction scans with
  | nil => rfl
  | @blank _ _ _ blank isBlank _ ih =>
      have notBracket : blank ≠ '[' := ne_of_isBlank isBlank (by decide)
      have different : blank ≠ '\\' := ne_of_isBlank isBlank (by decide)
      rw [markFrom, map_firstOpening?_cons, opensNoClass, beq_false_of_ne notBracket,
        beq_false_of_ne different, ih]
      rfl
  | escaped c _ ih =>
      rw [firstUnknown?_of_escaped, markFrom, markFrom, map_firstOpening?_cons,
        map_firstOpening?_cons, ih]
      simp [opensNoClass]
  | unescaped notBlank different rest ih =>
      rw [markFrom, map_firstOpening?_cons, opensNoClass, beq_false_of_ne different,
        Bool.false_and, ← rest.namesClass_eq, firstUnknown?, ih]

theorem unknownClassAt_iff {text : List Char} {position : Nat} :
    UnknownClassAt text position ↔ opensNoClass ((marked text).drop position) = true := by
  rw [UnknownClassAt, ← List.head?_drop, ← List.tail_drop]
  cases (marked text).drop position with
  | nil => simp [opensNoClass]
  | cons mark rest => simp [opensNoClass, Prod.ext_iff]

theorem firstOpening?_eq_some_iff {text : List Char} {position : Nat} :
    firstOpening? (marked text) = some position ↔
      UnknownClassAt text position ∧ ∀ earlier < position, ¬UnknownClassAt text earlier := by
  simp only [firstOpening?, List.findIdx?_eq_some_iff_getElem, List.getElem_tails,
    unknownClassAt_iff]
  constructor
  · intro found
    obtain ⟨_, opens, first⟩ := found
    exact ⟨opens, first⟩
  · intro found
    obtain ⟨opens, first⟩ := found
    refine ⟨?_, opens, first⟩
    rw [List.length_tails, Nat.lt_succ_iff]
    by_contra beyond
    rw [List.drop_of_length_le (Nat.le_of_not_le beyond)] at opens
    cases opens

theorem firstOpening?_eq_none_iff {text : List Char} :
    firstOpening? (marked text) = none ↔ ∀ position, ¬UnknownClassAt text position := by
  simp only [firstOpening?, List.findIdx?_eq_none_iff, List.mem_tails, unknownClassAt_iff]
  constructor
  · intro noneOpens position opens
    rw [noneOpens _ (List.drop_suffix position _)] at opens
    cases opens
  · intro noneOpens rest suffix
    rw [List.suffix_iff_eq_drop.mp suffix]
    exact Bool.eq_false_iff.mpr (noneOpens _)

theorem group_failsAt_firstOpening?
    {text : List Char} {characters : List SignificantChar} (scans : Scans 0 text characters) :
    FailsAt .unknownClass (firstOpening? (marked text)) (PlacedToken.group characters) := by
  have failure := group_failsAt characters
  simp only [scans.firstUnknown?_eq, Nat.zero_add, Option.map_id', ← marked_eq_markFrom]
    at failure
  exact failure

end SignificantChar

/-- Reading fails exactly with the fault of the characters, if there is one. -/
theorem TokenSequence.read_failsAt (text : List Char) :
    if finalBackslashes text % 2 = 1 then
      read text = .error ⟨.trailingEscape, text.length - 1⟩
    else FailsAt .unknownClass (SignificantChar.firstOpening? (marked text)) (read text) := by
  have scanning := SignificantChar.scanFrom_failsAt 0 0 text
  rw [endsInEscape_eq, Nat.zero_add] at scanning
  split
  case isTrue odd =>
    rw [odd] at scanning
    rw [read, show SignificantChar.scanFrom 0 0 text = _ from scanning]
    rfl
  case isFalse even =>
    rw [beq_false_of_ne even] at scanning
    obtain ⟨scanned, scanning⟩ := scanning
    rw [read, scanning]
    have grouping := SignificantChar.group_failsAt_firstOpening?
      (SignificantChar.scans_of_scanFrom scanning)
    exact grouping.map fun tokens => (⟨tokens, scanned.stop⟩ : TokenSequence)

end PatternAutomata
