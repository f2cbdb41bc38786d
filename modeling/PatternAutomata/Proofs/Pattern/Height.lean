import PatternAutomata.Pattern.Calls
import PatternAutomata.Proofs.Pattern.Canonical
import PatternAutomata.Proofs.Pattern.Construction

/-!
# The height of what is parsed

A tree is higher than another only by chains and quantifiers, and between one group and the next
there is room for one of each: so its height is bounded by the groups that it needs, however long its
chains are.  The height is also how many calls the construction has open at once.
-/

namespace PatternAutomata.Pattern

/-- How high a tree can be for the groups that it needs, by the place where it stands; and how high
the members of a chain can be where the chain stands without parentheses. -/
structure FitsGroups (tree : Pattern) : Prop where
  whole : ∀ place : Phrase, tree.height + place.rank ≤ 3 * groupDepthIn place tree + 4
  factors : tree.heights.factors + 2 ≤ 3 * groupDepthIn .product tree + 4
  alternatives : tree.heights.alternatives + 1 ≤ 3 * groupDepthIn .alternatives tree + 4

/-- A tree that needs parentheses in a place gets a group for them, which is worth three levels. -/
theorem height_add_rank_le (tree : Pattern)
    (own : tree.height + tree.phrase.rank ≤ 3 * groupDepthIn tree.phrase tree + 4)
    (place : Phrase) : tree.height + place.rank ≤ 3 * groupDepthIn place tree + 4 := by
  rw [groupDepthIn_eq place]
  by_cases needed : needsGroup place tree = true
  · rw [if_pos needed]
    have rank : place.rank ≤ 3 := by cases place <;> decide
    omega
  · rw [if_neg needed]
    have rank : place.rank ≤ tree.phrase.rank := by simpa [needsGroup] using needed
    omega

namespace FitsGroups

variable {left right item : Pattern}

theorem literal (c : Char) : FitsGroups (.literal c) := by
  have whole := height_add_rank_le (.literal c) (Nat.le_refl 4)
  exact ⟨whole, whole .factor, whole .product⟩

theorem charClass (cls : CharClass) : FitsGroups (.charClass cls) := by
  have whole := height_add_rank_le (.charClass cls) (Nat.le_refl 4)
  exact ⟨whole, whole .factor, whole .product⟩

theorem union (fits : FitsGroups left) (fitsRight : FitsGroups right) :
    FitsGroups (.union left right) := by
  have before := fits.whole .product
  have after := fitsRight.alternatives
  have members : max left.height right.heights.alternatives + 1 ≤
      3 * max (groupDepthIn .product left) (groupDepthIn .alternatives right) + 4 := by
    change left.height + 1 ≤ _ at before
    omega
  have own : 1 + max left.height right.heights.alternatives + 0 ≤
      3 * max (groupDepthIn .product left) (groupDepthIn .alternatives right) + 4 := by omega
  have whole := height_add_rank_le (.union left right) own
  exact ⟨whole, whole .factor, members⟩

theorem concat (fits : FitsGroups left) (fitsRight : FitsGroups right) :
    FitsGroups (.concat left right) := by
  have before := fits.factors
  have after := fitsRight.whole .factor
  have members : max left.heights.factors right.height + 2 ≤
      3 * max (groupDepthIn .product left) (groupDepthIn .factor right) + 4 := by
    change right.height + 2 ≤ _ at after
    omega
  have own : 1 + max left.heights.factors right.height + 1 ≤
      3 * max (groupDepthIn .product left) (groupDepthIn .factor right) + 4 := by omega
  have whole := height_add_rank_le (.concat left right) own
  exact ⟨whole, members, whole .product⟩

theorem quantified (fits : FitsGroups item) (mark : Quantifier) :
    FitsGroups (.quantified mark item) := by
  have inner := fits.whole .atom
  have own : 1 + item.height + 2 ≤ 3 * groupDepthIn .atom item + 4 := by
    change item.height + 3 ≤ _ at inner
    omega
  have whole := height_add_rank_le (.quantified mark item) own
  exact ⟨whole, whole .factor, whole .product⟩

end FitsGroups

theorem fitsGroups (tree : Pattern) : FitsGroups tree := by
  induction tree with
  | literal c => exact .literal c
  | charClass cls => exact .charClass cls
  | union left right ih ihRight => exact ih.union ihRight
  | concat left right ih ihRight => exact ih.concat ihRight
  | quantified mark item ih => exact ih.quantified mark

theorem height_le_groupDepth (tree : Pattern) : tree.height ≤ 3 * tree.groupDepth + 4 :=
  (fitsGroups tree).whole .alternatives

section Calls

open Nfa

variable {depth : Nat} {nfa : Nfa Nat}

theorem height_pos (tree : Pattern) : 0 < tree.height := by
  cases tree with
  | literal | charClass => exact Nat.one_pos
  | union left right => exact height_union left right ▸ Nat.lt_add_right _ Nat.one_pos
  | concat left right => exact height_concat left right ▸ Nat.lt_add_right _ Nat.one_pos
  | quantified mark item => exact Nat.lt_add_right _ Nat.one_pos

theorem toNfa_eq_foldl (tree : Pattern) :
    tree.toNfa = (tree.laterFactors.map toNfa).foldl followedBy tree.firstFactor.toNfa := by
  induction tree with
  | concat left right ih _ =>
      rw [toNfa_concat, ih, laterFactors, List.map_append, List.foldl_append]
      rfl
  | literal | charClass | union | quantified => rfl

theorem toNfa_eq_foldr (tree : Pattern) :
    tree.toNfa = (tree.earlierAlternatives.map toNfa).foldr either tree.lastAlternative.toNfa := by
  induction tree with
  | union left right _ ih =>
      rw [toNfa_union, ih]
      rfl
  | literal | charClass | concat | quantified => rfl

theorem toNfa_eq_alternatives (tree : Pattern) :
    tree.toNfa =
      Nfa.alternatives (tree.earlierAlternatives.map toNfa) tree.lastAlternative.toNfa := by
  rw [alternatives_eq_foldr _ (built_toNfa _) (walkJoins _).start_eq, ← toNfa_eq_foldr]
  intro left member
  obtain ⟨alternative, _, rfl⟩ := List.mem_map.mp member
  exact built_toNfa alternative

/-- The calls for the members of a chain come back if the call for each of them does. -/
theorem mapM_toNfaWithin_eq_some_iff
    (each : ∀ tree nfa, toNfaWithin depth tree = some nfa ↔ tree.height ≤ depth ∧ tree.toNfa = nfa)
    {trees : List Pattern} {nfas : List (Nfa Nat)} :
    trees.mapM (toNfaWithin depth) = some nfas ↔
      highest trees ≤ depth ∧ trees.map toNfa = nfas := by
  rw [highest_le_iff]
  induction trees generalizing nfas with
  | nil => simp [List.mapM_nil, eq_comm]
  | cons tree trees ih =>
      rw [List.mapM_cons]
      simp only [bind, pure, Option.bind_eq_some_iff, each, ih, Option.some_inj,
        List.forall_mem_cons, List.map_cons]
      constructor
      · rintro ⟨first, ⟨low, rfl⟩, others, ⟨lower, rfl⟩, rfl⟩
        exact ⟨⟨low, lower⟩, rfl⟩
      · rintro ⟨⟨low, lower⟩, rfl⟩
        exact ⟨_, ⟨low, rfl⟩, _, ⟨lower, rfl⟩, rfl⟩

/-- The height of a tree is the number of calls that its construction has open at once. -/
theorem toNfaWithin_eq_some_iff (depth : Nat) (tree : Pattern) (nfa : Nfa Nat) :
    toNfaWithin depth tree = some nfa ↔ tree.height ≤ depth ∧ tree.toNfa = nfa := by
  induction depth generalizing tree nfa with
  | zero =>
      have high := tree.height_pos
      simp only [toNfaWithin, reduceCtorEq, false_iff, not_and]
      omega
  | succ depth ih =>
      have members := @mapM_toNfaWithin_eq_some_iff depth ih
      cases tree with
      | literal c => simp [toNfaWithin, height, heights, toNfa_literal]
      | charClass cls => simp [toNfaWithin, height, heights, toNfa_charClass]
      | union left right =>
          rw [toNfaWithin, height_union, toNfa_eq_alternatives]
          simp only [bind, pure, Option.bind_eq_some_iff, members, ih, Option.some_inj]
          constructor
          · rintro ⟨lefts, ⟨low, rfl⟩, last, ⟨lower, rfl⟩, same⟩
            exact ⟨by omega, same⟩
          · rintro ⟨low, same⟩
            exact ⟨_, ⟨by omega, rfl⟩, _, ⟨by omega, rfl⟩, same⟩
      | concat left right =>
          rw [toNfaWithin, height_concat, toNfa_eq_foldl]
          simp only [bind, pure, Option.bind_eq_some_iff, members, ih, Option.some_inj]
          constructor
          · rintro ⟨first, ⟨low, rfl⟩, rights, ⟨lower, rfl⟩, same⟩
            exact ⟨by omega, same⟩
          · rintro ⟨low, same⟩
            exact ⟨_, ⟨by omega, rfl⟩, _, ⟨by omega, rfl⟩, same⟩
      | quantified mark item =>
          rw [toNfaWithin, height_quantified, toNfa_quantified]
          simp only [bind, pure, Option.bind_eq_some_iff, ih, Option.some_inj]
          constructor
          · rintro ⟨inner, ⟨low, rfl⟩, same⟩
            exact ⟨by omega, same⟩
          · rintro ⟨low, same⟩
            exact ⟨_, ⟨by omega, rfl⟩, same⟩

end Calls

/-- However long a pattern is, its tree is no higher than the limit on groups allows, and the
construction never has more calls open at once. -/
theorem height_le_of_parse {text : List Char} {tree : Pattern} (parsed : parse text = .ok tree) :
    tree.height ≤ 3 * (maxGroupDepth + 1) + 1 ∧
      tree.toNfaWithin (3 * (maxGroupDepth + 1) + 1) = some tree.toNfa := by
  have bound : tree.height ≤ 3 * (maxGroupDepth + 1) + 1 := by
    have high := height_le_groupDepth tree
    have groups := groupDepth_le_of_parse parsed
    omega
  exact ⟨bound, (toNfaWithin_eq_some_iff _ _ _).mpr ⟨bound, rfl⟩⟩

/-- A case with a group that its chain takes up, one that a quantifier keeps, and longer chains. -/
theorem height_le_of_parse_chains :
    let text : List Char := ['a', '|', '(', '(', 'b', '|', 'c', ')', '*', 'd', 'e', '|', 'f', ')']
    let tree : Pattern :=
      .union (.literal 'a') (.union
        (.concat (.concat (.quantified .star (.union (.literal 'b') (.literal 'c'))) (.literal 'd'))
          (.literal 'e'))
        (.literal 'f'))
    parse text = .ok tree ∧ tree.height = 5 ∧ tree.height ≤ 3 * (maxGroupDepth + 1) + 1 ∧
      tree.toNfaWithin (3 * (maxGroupDepth + 1) + 1) = some tree.toNfa := by
  intro text tree
  have parsed : parse text = .ok tree := parse_eq_onePass text
  exact ⟨parsed, rfl, height_le_of_parse parsed⟩

section Tower

/-- A quantifier, a chain of factors and a chain of alternatives, around the tree of the level
below. -/
def tower : Nat → Pattern
  | 0 => .literal 'a'
  | level + 1 => .union (.concat (.quantified .star (tower level)) (.literal 'a')) (.literal 'a')

theorem height_tower (level : Nat) : (tower level).height = 3 * level + 1 := by
  induction level with
  | zero => rfl
  | succ level ih =>
      change 1 + max (1 + max (1 + (tower level).height) 1) 1 = _
      omega

theorem groupDepthIn_atom_tower (level : Nat) : groupDepthIn .atom (tower level) = level := by
  induction level with
  | zero => rfl
  | succ level ih =>
      change max (max (groupDepthIn .atom (tower level)) 0) 0 + 1 = _
      omega

theorem groupDepth_tower_succ (level : Nat) : (tower (level + 1)).groupDepth = level := by
  change max (max (groupDepthIn .atom (tower level)) 0) 0 = _
  rw [groupDepthIn_atom_tower]
  omega

/-- Some pattern is as high as the limit on groups allows. -/
theorem exists_parse_height_eq :
    ∃ text tree, parse text = .ok tree ∧ tree.height = 3 * (maxGroupDepth + 1) + 1 :=
  ⟨_, tower (maxGroupDepth + 1), parse_spelling_of_le (groupDepth_tower_succ maxGroupDepth).le,
    height_tower (maxGroupDepth + 1)⟩

end Tower

end PatternAutomata.Pattern
