import PatternAutomata.Nfa.Listing
import PatternAutomata.Pattern.Regrouping
import PatternAutomata.Proofs.CommandLine
import PatternAutomata.Proofs.Pattern.Construction

/-!
# Concatenation is associative

Continuing one automaton by another is associative and commutes with shifting.  So a chain of
concatenations gives one automaton, number for number, however it is nested, and what is made of the
automaton does not see the nesting either.
-/

namespace PatternAutomata

namespace Nfa

section Continuing

variable {first second third : Nfa Nat} {offset : Nat}

theorem Built.continuedBy_assoc
    (built : first.Built) (secondBuilt : second.Built) (thirdBuilt : third.Built) :
    first.continuedBy (second.continuedBy third) = (first.continuedBy second).continuedBy third := by
  have front := built.continuedBy secondBuilt
  have back := secondBuilt.continuedBy thirdBuilt
  apply Closed.ext (built.continuedBy back).closed (front.continuedBy thirdBuilt).closed
  · intro c
    simp only [mem_alphabet_continuedBy, or_assoc]
  · intro state
    rw [mem_states_continuedBy built.closed back.closed,
      mem_states_continuedBy front.closed thirdBuilt.closed,
      mem_states_continuedBy built.closed secondBuilt.closed,
      mem_states_continuedBy secondBuilt.closed thirdBuilt.closed, or_assoc]
  · simp only [start_continuedBy]
  · intro source symbol target
    simp only [hasMove_continuedBy, start_continuedBy, mem_accepting_continuedBy]
    grind
  · intro state
    simp only [mem_accepting_continuedBy]

theorem Built.shift_continuedBy (built : first.Built) (secondBuilt : second.Built) :
    (first.continuedBy second).shift offset =
      (first.shift offset).continuedBy (second.shift offset) := by
  have whole := built.continuedBy secondBuilt
  have shifted : (first.shift offset).Built := built.shift
  have secondShifted : (second.shift offset).Built := secondBuilt.shift
  apply Closed.ext whole.shift.closed (shifted.continuedBy secondShifted).closed
  · intro c
    simp only [alphabet_shift, mem_alphabet_continuedBy]
  · intro state
    simp only [mem_states_shift, mem_states_continuedBy built.closed secondBuilt.closed,
      mem_states_continuedBy shifted.closed secondShifted.closed, or_and_right, exists_or]
  · simp only [start_shift, start_continuedBy]
  · intro source symbol target
    simp only [hasMove_shift, hasMove_continuedBy, mem_accepting_shift, start_shift]
    constructor
    · intro move
      obtain ⟨origin, goal, inFirst | inSecond | ⟨accepting, rfl, rfl⟩, rfl, rfl⟩ := move
      · exact .inl ⟨origin, goal, inFirst, rfl, rfl⟩
      · exact .inr (.inl ⟨origin, goal, inSecond, rfl, rfl⟩)
      · exact .inr (.inr ⟨⟨origin, accepting, rfl⟩, rfl, rfl⟩)
    · intro move
      rcases move with ⟨origin, goal, inFirst, same⟩ | ⟨origin, goal, inSecond, same⟩ |
        ⟨⟨origin, accepting, same⟩, rfl, rfl⟩
      · exact ⟨origin, goal, .inl inFirst, same⟩
      · exact ⟨origin, goal, .inr (.inl inSecond), same⟩
      · exact ⟨origin, second.start, .inr (.inr ⟨accepting, rfl, rfl⟩), same, rfl⟩
  · intro state
    simp only [mem_accepting_shift, mem_accepting_continuedBy]

theorem Built.greatest_followedBy (built : first.Built) (secondBuilt : second.Built) :
    (first.followedBy second).greatest = second.greatest + (first.greatest + 1) := by
  apply greatest_eq
  · apply (mem_states_followedBy built secondBuilt).mpr
    exact .inr (mem_states_shift.mpr ⟨_, greatest_mem secondBuilt.closed.start_mem, rfl⟩)
  · intro other member
    rcases (mem_states_followedBy built secondBuilt).mp member with inFirst | inSecond
    · have bound := le_greatest inFirst
      omega
    · obtain ⟨origin, among, rfl⟩ := mem_states_shift.mp inSecond
      exact Nat.add_le_add_right (le_greatest among) _

/-- What stands above the second of two automata that are above one another stands above both. -/
theorem Built.above_above (built : first.Built) (secondBuilt : second.Built) :
    first.above (second.above third) = (first.followedBy second).above third := by
  rw [above, above, shift_shift, above, built.greatest_followedBy secondBuilt]
  congr 1
  omega

theorem Built.followedBy_assoc
    (built : first.Built) (secondBuilt : second.Built) (thirdBuilt : third.Built) :
    first.followedBy (second.followedBy third) = (first.followedBy second).followedBy third := by
  have secondAbove : (first.above second).Built := secondBuilt.shift
  have thirdAboveSecond : (second.above third).Built := thirdBuilt.shift
  have thirdAbove : (first.above (second.above third)).Built := thirdAboveSecond.shift
  calc
    first.followedBy (second.followedBy third)
        = first.continuedBy ((second.continuedBy (second.above third)).shift _) := rfl
    _ = first.continuedBy
          ((first.above second).continuedBy (first.above (second.above third))) :=
        congrArg first.continuedBy (secondBuilt.shift_continuedBy thirdAboveSecond)
    _ = (first.continuedBy (first.above second)).continuedBy
          (first.above (second.above third)) :=
        built.continuedBy_assoc secondAbove thirdAbove
    _ = (first.followedBy second).followedBy third := by
        rw [built.above_above secondBuilt]
        rfl

end Continuing

end Nfa

namespace Pattern

theorem toNfa_concat_assoc (first second third : Pattern) :
    (concat first (concat second third)).toNfa = (concat (concat first second) third).toNfa := by
  simp only [toNfa_concat]
  exact first.built_toNfa.followedBy_assoc second.built_toNfa third.built_toNfa

namespace Regrouped

variable {first second : Pattern}

theorem toNfa_eq (regrouped : Regrouped first second) : first.toNfa = second.toNfa := by
  induction regrouped with
  | refl => rfl
  | symm _ ih => exact ih.symm
  | trans _ _ ih ihNext => exact ih.trans ihNext
  | assoc first second third => exact toNfa_concat_assoc first second third
  | union _ _ ih ihRight => rw [toNfa_union, toNfa_union, ih, ihRight]
  | concat _ _ ih ihRight => rw [toNfa_concat, toNfa_concat, ih, ihRight]
  | quantified mark _ ih => rw [toNfa_quantified, toNfa_quantified, ih]

theorem nestLeft_eq (regrouped : Regrouped first second) (before : Option Pattern) :
    first.nestLeft before = second.nestLeft before := by
  induction regrouped generalizing before with
  | refl => rfl
  | symm _ ih => exact (ih before).symm
  | trans _ _ ih ihNext => exact (ih before).trans (ihNext before)
  | assoc => rfl
  | union _ _ ih ihRight => rw [nestLeft, nestLeft, ih, ihRight]
  | concat _ _ ih ihRight => rw [nestLeft, nestLeft, ih, ihRight]
  | quantified mark _ ih => rw [nestLeft, nestLeft, ih]

theorem behind (before : Option Pattern) (regrouped : Regrouped first second) :
    Regrouped (behind before first) (behind before second) := by
  cases before with
  | none => exact regrouped
  | some before => exact .concat (.refl before) regrouped

theorem behind_concat (before : Option Pattern) (left right : Pattern) :
    Regrouped (Pattern.behind before (.concat left right))
      (.concat (Pattern.behind before left) right) := by
  cases before with
  | none => exact .refl _
  | some before => exact .assoc before left right

/-- Nesting the chains to the left is a way to regroup. -/
theorem nestLeft (pattern : Pattern) (before : Option Pattern) :
    Regrouped (Pattern.behind before pattern) (pattern.nestLeft before) := by
  induction pattern generalizing before with
  | literal c => exact .refl _
  | charClass cls => exact .refl _
  | union left right ih ihRight => exact .behind before (.union (ih none) (ihRight none))
  | concat left right ih ihRight =>
      have nested : Regrouped (Pattern.behind before left) (left.nestLeft before) := ih before
      apply (behind_concat before left right).trans
      apply (Regrouped.concat nested (.refl right)).trans
      exact ihRight (some (left.nestLeft before))
  | quantified mark item ih => exact .behind before (.quantified mark (ih none))

end Regrouped

/-- Patterns are regroupings of each other if nesting to the left makes them one. -/
theorem regrouped_iff {first second : Pattern} :
    Regrouped first second ↔ first.nestLeft none = second.nestLeft none := by
  constructor
  · intro regrouped
    exact regrouped.nestLeft_eq none
  · intro same
    have nested := Regrouped.nestLeft first none
    rw [same] at nested
    exact nested.trans (Regrouped.nestLeft second none).symm

instance (first second : Pattern) : Decidable (Regrouped first second) :=
  decidable_of_iff (first.nestLeft none = second.nestLeft none) regrouped_iff.symm

open CommandLine in
/-- Concatenation is associative, state number for state number.  So regrouping a pattern changes
neither its automata nor their listings, nor what a run with the pattern writes. -/
theorem regrouping_keeps_automata :
    (∀ first second third : Pattern,
      (concat first (concat second third)).toNfa = (concat (concat first second) third).toNfa) ∧
    ∀ first second : Pattern, Regrouped first second →
      first.toNfa = second.toNfa ∧
      first.toNfa.determinize = second.toNfa.determinize ∧
      first.toNfa.listing = second.toNfa.listing ∧
      first.toNfa.determinize.renumber.listing = second.toNfa.determinize.renumber.listing ∧
      ∀ firstText secondText words input,
        parse firstText = .ok first → parse secondText = .ok second →
        SameResult (run ("--dump".toList :: firstText :: words) input)
          (run ("--dump".toList :: secondText :: words) input) := by
  refine ⟨toNfa_concat_assoc, ?_⟩
  intro first second regrouped
  have same := regrouped.toNfa_eq
  refine ⟨same, congrArg _ same, congrArg _ same, ?_, ?_⟩
  · rw [same]
  · intro firstText secondText words input parsed parsedSecond
    exact sameResult_of_toNfa_eq same parsed parsedSecond splitDump_dump splitDump_dump input

/-- A case in which a group stands within a chain that is itself repeated, in one alternative. -/
theorem regrouping_keeps_automata_nested :
    let grouped : Pattern :=
      .concat (.concat (.literal 'a') (.concat (.literal 'b') (.literal 'c'))) (.literal 'd')
    let plain : Pattern :=
      .concat (.concat (.concat (.literal 'a') (.literal 'b')) (.literal 'c')) (.literal 'd')
    let within := fun chain => union (quantified .star chain) (.literal 'e')
    parse ['(', 'a', '(', 'b', 'c', ')', 'd', ')', '*', '|', 'e'] = .ok (within grouped) ∧
      parse ['(', 'a', 'b', 'c', 'd', ')', '*', '|', 'e'] = .ok (within plain) ∧
      within grouped ≠ within plain ∧ Regrouped (within grouped) (within plain) ∧
      (within grouped).toNfa = (within plain).toNfa := by
  intro grouped plain within
  have regrouped : Regrouped (within grouped) (within plain) := by decide
  exact ⟨parse_eq_onePass _, parse_eq_onePass _, by decide, regrouped,
    (regrouping_keeps_automata.2 _ _ regrouped).1⟩

end Pattern

end PatternAutomata
