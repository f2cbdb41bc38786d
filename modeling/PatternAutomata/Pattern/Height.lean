import PatternAutomata.Pattern

/-!
# The height of patterns

How deeply a pattern nests when a chain of factors counts as one level, and a chain of alternatives
as another.
-/

namespace PatternAutomata.Pattern

/-- The height of a tree, and that of the highest member when the tree is taken for a chain of
factors or of alternatives. -/
structure Heights where
  whole : Nat
  factors : Nat
  alternatives : Nat

def heights : Pattern → Heights
  | .literal _ | .charClass _ => ⟨1, 1, 1⟩
  | .union left right =>
    let highest := max left.heights.whole right.heights.alternatives
    ⟨1 + highest, 1 + highest, highest⟩
  | .concat left right =>
    let highest := max left.heights.factors right.heights.whole
    ⟨1 + highest, highest, 1 + highest⟩
  | .quantified _ item =>
    let height := 1 + item.heights.whole
    ⟨height, height, height⟩

def height (tree : Pattern) : Nat := tree.heights.whole

def firstFactor : Pattern → Pattern
  | .concat left _ => left.firstFactor
  | tree => tree

/-- The factors of a chain of concatenations behind the first, in order. -/
def laterFactors : Pattern → List Pattern
  | .concat left right => left.laterFactors ++ [right]
  | _ => []

/-- The alternatives of a chain of unions before the last, in order. -/
def earlierAlternatives : Pattern → List Pattern
  | .union left right => left :: right.earlierAlternatives
  | _ => []

def lastAlternative : Pattern → Pattern
  | .union _ right => right.lastAlternative
  | tree => tree

def highest (trees : List Pattern) : Nat := (trees.map height).foldr max 0

theorem highest_append (trees others : List Pattern) :
    highest (trees ++ others) = max (highest trees) (highest others) := by
  induction trees with
  | nil => exact (Nat.zero_max _).symm
  | cons tree trees ih =>
      change max tree.height (highest (trees ++ others)) = _
      rw [ih, ← Nat.max_assoc]
      rfl

theorem highest_le_iff {trees : List Pattern} {bound : Nat} :
    highest trees ≤ bound ↔ ∀ tree ∈ trees, tree.height ≤ bound := by
  induction trees with
  | nil => simp [highest]
  | cons tree trees ih =>
      rw [List.forall_mem_cons, ← ih]
      exact Nat.max_le

theorem factors_heights (tree : Pattern) :
    tree.heights.factors = max tree.firstFactor.height (highest tree.laterFactors) := by
  induction tree with
  | concat left right ih _ =>
      have last : highest [right] = right.height := Nat.max_zero _
      change max left.heights.factors right.height = _
      rw [firstFactor, laterFactors, highest_append, last, ← Nat.max_assoc, ih]
  | literal | charClass | union | quantified => exact (Nat.max_zero _).symm

theorem alternatives_heights (tree : Pattern) :
    tree.heights.alternatives = max (highest tree.earlierAlternatives) tree.lastAlternative.height := by
  induction tree with
  | union left right _ ih =>
      change max left.height right.heights.alternatives = _
      rw [ih, ← Nat.max_assoc]
      rfl
  | literal | charClass | concat | quantified => exact (Nat.zero_max _).symm

/-- A chain of factors is one higher than its highest member. -/
theorem height_concat (left right : Pattern) :
    (concat left right).height =
      1 + max (concat left right).firstFactor.height (highest (concat left right).laterFactors) :=
  congrArg (1 + ·) (factors_heights (concat left right))

/-- A chain of alternatives is one higher than its highest member. -/
theorem height_union (left right : Pattern) :
    (union left right).height =
      1 + max (highest (union left right).earlierAlternatives)
        (union left right).lastAlternative.height :=
  congrArg (1 + ·) (alternatives_heights (union left right))

theorem height_quantified (mark : Quantifier) (item : Pattern) :
    (quantified mark item).height = 1 + item.height := rfl

end PatternAutomata.Pattern
