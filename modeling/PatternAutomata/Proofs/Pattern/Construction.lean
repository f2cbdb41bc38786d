import PatternAutomata.Proofs.Pattern.Chains
import PatternAutomata.Proofs.Pattern.Languages

/-!
# The construction is correct

Walking along the chains of a pattern gives the automaton that the rules for single nodes give,
number for number, and this automaton accepts the language of the pattern.
-/

namespace PatternAutomata.Pattern

open Nfa

/-- What the walk along a chain computes is the automaton of its end, joined with what has been
passed by the rules for two automata. -/
structure WalkJoins (pattern : Pattern) : Prop where
  built : pattern.toNfa.Built
  start_eq : pattern.toNfa.start = 0
  factors_eq : ∀ rights : List (Nfa Nat),
    pattern.walk (.factors rights) = rights.foldl followedBy pattern.toNfa
  alternatives_eq : ∀ lefts : List (Nfa Nat), (∀ left ∈ lefts, left.Built) →
    pattern.walk (.alternatives lefts) = lefts.foldr either pattern.toNfa

namespace WalkJoins

variable {pattern left right : Pattern}

/-- A pattern that ends every chain is joined where the walk arrives. -/
theorem of_walk_eq_join
    (joined : ∀ passed, pattern.walk passed = passed.join pattern.toNfa)
    (built : pattern.toNfa.Built) (zero : pattern.toNfa.start = 0) :
    WalkJoins pattern where
  built := built
  start_eq := zero
  factors_eq rights := joined (.factors rights)
  alternatives_eq lefts leftsBuilt :=
    (joined (.alternatives lefts)).trans (alternatives_eq_foldr leftsBuilt built zero)

theorem toNfa_concat (leftJoins : WalkJoins left) :
    (concat left right).toNfa = left.toNfa.followedBy right.toNfa :=
  leftJoins.factors_eq [right.toNfa]

theorem toNfa_union (leftJoins : WalkJoins left) (rightJoins : WalkJoins right) :
    (union left right).toNfa = left.toNfa.either right.toNfa := by
  apply rightJoins.alternatives_eq [left.toNfa]
  intro other member
  rw [List.mem_singleton.mp member]
  exact leftJoins.built

theorem concat (leftJoins : WalkJoins left) (rightJoins : WalkJoins right) :
    WalkJoins (concat left right) := by
  have whole : (Pattern.concat left right).toNfa = left.toNfa.followedBy right.toNfa :=
    leftJoins.toNfa_concat
  have built : (Pattern.concat left right).toNfa.Built := by
    rw [whole]
    exact leftJoins.built.followedBy rightJoins.built
  have zero : (Pattern.concat left right).toNfa.start = 0 := by
    rw [whole, start_followedBy, leftJoins.start_eq]
  refine ⟨built, zero, ?_, ?_⟩
  · intro rights
    calc (Pattern.concat left right).walk (.factors rights)
        = left.walk (.factors (right.toNfa :: rights)) := rfl
      _ = (right.toNfa :: rights).foldl followedBy left.toNfa := leftJoins.factors_eq _
      _ = rights.foldl followedBy (Pattern.concat left right).toNfa := by
          rw [List.foldl_cons, whole]
  · intro lefts leftsBuilt
    calc (Pattern.concat left right).walk (.alternatives lefts)
        = Nfa.alternatives lefts (Pattern.concat left right).toNfa := rfl
      _ = lefts.foldr either (Pattern.concat left right).toNfa :=
          alternatives_eq_foldr leftsBuilt built zero

theorem union (leftJoins : WalkJoins left) (rightJoins : WalkJoins right) :
    WalkJoins (union left right) := by
  have whole : (Pattern.union left right).toNfa = left.toNfa.either right.toNfa :=
    leftJoins.toNfa_union rightJoins
  refine ⟨?_, ?_, fun rights => rfl, ?_⟩
  · rw [whole]
    exact leftJoins.built.either rightJoins.built
  · rw [whole, start_either]
  · intro lefts leftsBuilt
    have passedBuilt : ∀ other ∈ lefts ++ [left.toNfa], other.Built := by
      intro other member
      rcases List.mem_append.mp member with before | last
      · exact leftsBuilt other before
      · rw [List.mem_singleton.mp last]
        exact leftJoins.built
    calc (Pattern.union left right).walk (.alternatives lefts)
        = right.walk (.alternatives (lefts ++ [left.toNfa])) := rfl
      _ = (lefts ++ [left.toNfa]).foldr either right.toNfa :=
          rightJoins.alternatives_eq _ passedBuilt
      _ = lefts.foldr either (Pattern.union left right).toNfa := by
          rw [List.foldr_append, whole]
          rfl

end WalkJoins

theorem walkJoins (pattern : Pattern) : WalkJoins pattern := by
  induction pattern with
  | literal c => exact .of_walk_eq_join (fun _ => rfl) built_oneOf start_oneOf
  | charClass cls => exact .of_walk_eq_join (fun _ => rfl) built_oneOf start_oneOf
  | union left right ih ihRight => exact ih.union ihRight
  | concat left right ih ihRight => exact ih.concat ihRight
  | quantified mark item ih =>
      exact .of_walk_eq_join (fun _ => rfl) ih.built.quantified start_quantified

section Rules

variable {left right item : Pattern} {mark : Quantifier} {c : Char} {cls : CharClass}

theorem toNfa_literal : (literal c).toNfa = oneOf [c] := rfl

theorem toNfa_charClass : (charClass cls).toNfa = oneOf cls.chars := rfl

theorem toNfa_union : (union left right).toNfa = left.toNfa.either right.toNfa :=
  (walkJoins left).toNfa_union (walkJoins right)

theorem toNfa_concat : (concat left right).toNfa = left.toNfa.followedBy right.toNfa :=
  (walkJoins left).toNfa_concat

theorem toNfa_quantified : (quantified mark item).toNfa = item.toNfa.quantified mark := rfl

end Rules

theorem built_toNfa (pattern : Pattern) : pattern.toNfa.Built := (walkJoins pattern).built

theorem language_toNfa (pattern : Pattern) : pattern.toNfa.language = pattern.language := by
  induction pattern with
  | literal c =>
      rw [toNfa_literal, language_oneOf]
      apply Language.ext
      intro word
      constructor
      · intro spelled
        obtain ⟨d, member, rfl⟩ := spelled
        rw [List.mem_singleton.mp member]
        rfl
      · intro same
        exact ⟨c, List.mem_singleton_self c, same⟩
  | charClass cls =>
      rw [toNfa_charClass, language_oneOf]
      simp only [CharClass.mem_chars]
      rfl
  | union left right ih ihRight =>
      rw [toNfa_union, language_either (built_toNfa left) (built_toNfa right), ih, ihRight]
      rfl
  | concat left right ih ihRight =>
      rw [toNfa_concat, language_followedBy (built_toNfa left) (built_toNfa right), ih, ihRight]
      rfl
  | quantified mark item ih =>
      rw [toNfa_quantified, language_quantified (built_toNfa item), ih]
      rfl

/-- The automaton of a pattern accepts exactly the words that the pattern matches. -/
theorem accepts_toNfa_iff (pattern : Pattern) (word : List Char) :
    pattern.toNfa.Accepts word ↔ word ∈ pattern.language := by
  rw [← language_toNfa]
  rfl

/-- Walking along the chains of a pattern gives the automaton of the recursion case by case. -/
theorem toNfa_eq_nestedNfa (pattern : Pattern) : pattern.toNfa = pattern.nestedNfa := by
  induction pattern with
  | literal c => exact oneOf_eq_twoStates (List.cons_ne_nil c [])
  | charClass cls => exact oneOf_eq_twoStates (by cases cls <;> decide)
  | union left right ih ihRight => rw [toNfa_union, nestedNfa, ih, ihRight]
  | concat left right ih ihRight =>
      rw [toNfa_concat, (built_toNfa left).followedBy_eq_sequence (built_toNfa right), nestedNfa,
        ih, ihRight]
  | quantified mark item ih =>
      rw [toNfa_quantified, (built_toNfa item).quantified_eq_repeated, nestedNfa, ih]

end PatternAutomata.Pattern
