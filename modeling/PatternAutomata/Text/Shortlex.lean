import Mathlib.Computability.Language
import Mathlib.Data.Char
import Mathlib.Data.List.Shortlex

/-!
# The shortlex order of words

Shorter words come first, and words of the same length are ordered by code points, as in a
dictionary.  Every language that is not empty has a least word.
-/

namespace PatternAutomata.Text

/-- The word comes before the other one: it is shorter, or as long and earlier in a dictionary. -/
def Precedes (word other : List Char) : Prop :=
  List.Shortlex (· < ·) word other

/-- The word belongs to the language and comes before all its other words. -/
structure IsLeastWord (language : Language Char) (word : List Char) : Prop where
  mem : word ∈ language
  least : ∀ other, other ∈ language → word = other ∨ Precedes word other

theorem wellFounded_lt_char : WellFounded fun c d : Char => c < d :=
  InvImage.wf Char.toNat wellFounded_lt

/-- Words of one length are compared by their last characters only if they agree before them. -/
theorem lex_of_lex_concat
    {word other : List Char} {c d : Char} (sameLength : word.length = other.length)
    (less : List.Lex (· < ·) (word ++ [c]) (other ++ [d])) :
    List.Lex (· < ·) word other ∨ word = other ∧ c < d := by
  induction word generalizing other with
  | nil =>
      obtain rfl := List.eq_nil_of_length_eq_zero sameLength.symm
      exact .inr ⟨rfl, (List.lex_singleton_iff c d).mp less⟩
  | cons a word ih =>
      cases other with
      | nil => cases sameLength
      | cons b other =>
          cases less with
          | rel smaller => exact .inl (.rel smaller)
          | cons less =>
              rcases ih (Nat.succ.inj sameLength) less with earlier | ⟨rfl, smaller⟩
              · exact .inl (.cons earlier)
              · exact .inr ⟨rfl, smaller⟩

namespace Precedes

variable {first second third word other : List Char} {c d : Char}

theorem irrefl (word : List Char) : ¬Precedes word word := fun precedes =>
  Std.Asymm.asymm (r := List.Shortlex (· < ·)) word word precedes precedes

theorem not_nil : ¬Precedes word [] :=
  List.not_shortlex_nil_right

theorem trans (before : Precedes first second) (after : Precedes second third) :
    Precedes first third := by
  apply List.shortlex_def.mpr
  rcases List.shortlex_def.mp before with shorter | ⟨sameLength, less⟩
  · rcases List.shortlex_def.mp after with stillShorter | ⟨sameAgain, _⟩
    · exact .inl (shorter.trans stillShorter)
    · exact .inl (sameAgain ▸ shorter)
  · rcases List.shortlex_def.mp after with shorter | ⟨sameAgain, lessAgain⟩
    · exact .inl (sameLength ▸ shorter)
    · refine .inr ⟨sameLength.trans sameAgain, ?_⟩
      rw [List.lex_lt] at less lessAgain ⊢
      exact List.lt_trans less lessAgain

theorem concat (word : List Char) (c : Char) : Precedes word (word ++ [c]) :=
  .of_length_lt (by simp)

theorem of_concat (precedes : Precedes (word ++ [c]) (other ++ [d])) :
    Precedes word other ∨ word = other ∧ c < d := by
  rcases List.shortlex_def.mp precedes with shorter | ⟨sameLength, less⟩
  · simp only [List.length_append, List.length_singleton, Nat.add_lt_add_iff_right] at shorter
    exact .inl (.of_length_lt shorter)
  · simp only [List.length_append, List.length_singleton, Nat.add_right_cancel_iff] at sameLength
    exact (lex_of_lex_concat sameLength less).imp_left (.of_lex sameLength)

end Precedes

theorem precedes_trichotomous (word other : List Char) :
    Precedes word other ∨ word = other ∨ Precedes other word :=
  Std.Trichotomous.rel_or_eq_or_rel_swap (r := List.Shortlex (· < ·))

namespace IsLeastWord

variable {language : Language Char} {word other third : List Char}

theorem precedes_of_precedes (least : IsLeastWord language word) (member : other ∈ language)
    (before : Precedes other third) : Precedes word third := by
  rcases least.least other member with rfl | earlier
  · exact before
  · exact earlier.trans before

theorem precedes_of_precedes_least (least : IsLeastWord language word) (member : other ∈ language)
    (before : Precedes third word) : Precedes third other := by
  rcases least.least other member with rfl | later
  · exact before
  · exact before.trans later

theorem unique (least : IsLeastWord language word) (otherLeast : IsLeastWord language other) :
    word = other := by
  rcases least.least other otherLeast.mem with same | before
  · exact same
  · rcases otherLeast.least word least.mem with same | after
    · exact same.symm
    · exact absurd (before.trans after) (Precedes.irrefl word)

theorem exists_of_mem (member : word ∈ language) : ∃ least, IsLeastWord language least := by
  obtain ⟨least, belongs, minimal⟩ :=
    (List.Shortlex.wf wellFounded_lt_char).has_min language ⟨word, member⟩
  refine ⟨least, belongs, ?_⟩
  intro other among
  rcases precedes_trichotomous least other with before | same | after
  · exact .inr before
  · exact .inl same
  · exact absurd after (minimal other among)

end IsLeastWord

end PatternAutomata.Text
