/-!
# Symbols

A move of an automaton is labelled with a character or with epsilon, the label of a move that
reads nothing.  Characters are ordered by code point and epsilon follows all of them, so every
listing of moves shows the epsilon moves of a state last.
-/

namespace PatternAutomata

/-- The label of a move: a character, or epsilon. -/
inductive Symbol where
  | char (c : Char)
  | epsilon
deriving DecidableEq

namespace Symbol

/-- The character that a move with this label reads, if it reads one. -/
def char? : Symbol → Option Char
  | .char c => some c
  | .epsilon => none

def isEpsilon : Symbol → Bool
  | .char _ => false
  | .epsilon => true

/-- The single character that stands for the symbol in texts. -/
def glyph : Symbol → Char
  | .char c => c
  | .epsilon => 'ε'

/-- Characters compare by code point, and epsilon is the greatest symbol. -/
protected def compare : Symbol → Symbol → Ordering
  | .char c, .char d => Ord.compare c d
  | .char _, .epsilon => .lt
  | .epsilon, .char _ => .gt
  | .epsilon, .epsilon => .eq

instance : Ord Symbol := ⟨Symbol.compare⟩

@[simp] theorem compare_char (c d : Char) : compare (char c) (char d) = compare c d := rfl

@[simp] theorem compare_char_epsilon (c : Char) : compare (char c) epsilon = .lt := rfl

@[simp] theorem compare_epsilon_char (c : Char) : compare epsilon (char c) = .gt := rfl

@[simp] theorem compare_epsilon : compare epsilon epsilon = .eq := rfl

instance : Std.LawfulEqOrd Symbol where
  compare_self := by
    intro symbol
    cases symbol <;> simp
  eq_of_compare := by
    intro first second equal
    cases first <;> cases second <;> simp_all

instance : Std.TransOrd Symbol where
  eq_swap := by
    intro first second
    cases first with
    | epsilon => cases second <;> rfl
    | char c =>
      cases second with
      | epsilon => rfl
      | char d =>
        change compare c d = (compare d c).swap
        exact Std.OrientedOrd.eq_swap
  isLE_trans := by
    intro first second third below above
    cases first <;> cases second <;> cases third <;> simp_all
    exact Std.TransCmp.isLE_trans below above

end Symbol

end PatternAutomata
