import PatternAutomata.Dfa

/-!
# The moves of deterministic automata

Setting a move changes the target of its source and character, and no other.
-/

namespace PatternAutomata.Dfa

variable {S : Type} [Ord S] [Std.TransOrd S]

/-- Reads a word by following moves; `none` means that a move is missing. -/
def follow (dfa : Dfa S) (state : S) (word : List Char) : Option S :=
  word.foldlM dfa.target? state

theorem target?_singleton {alphabet : OrderedSet Char} {start source : S} {c : Char} :
    (singleton alphabet start).target? source c = none := by
  simp [target?, singleton]

theorem target?_withMissing {dfa : Dfa S} {missing : MissingMove} {source : S} {c : Char} :
    (dfa.withMissing missing).target? source c = dfa.target? source c :=
  rfl

variable [Std.LawfulEqOrd S]

theorem getElem?_rows_setMove {dfa : Dfa S} {origin goal source : S} {c : Char} :
    (dfa.setMove origin c goal).rows[source]? =
      if compare origin source = .eq then some ((dfa.rows[source]?.getD ∅).insert c goal)
      else dfa.rows[source]? := by
  change (dfa.rows.alter origin _)[source]? = _
  rw [Std.ExtTreeMap.getElem?_alter]
  by_cases same : compare origin source = .eq
  · have equal := Std.LawfulEqOrd.eq_of_compare same
    subst equal
    simp
  · simp [same]

theorem target?_setMove_self {dfa : Dfa S} {source target : S} {c : Char} :
    (dfa.setMove source c target).target? source c = some target := by
  rw [target?, getElem?_rows_setMove, if_pos Std.ReflCmp.compare_self]
  simp

theorem target?_setMove_of_ne {dfa : Dfa S} {origin goal source : S} {c d : Char}
    (different : origin ≠ source ∨ c ≠ d) :
    (dfa.setMove origin c goal).target? source d = dfa.target? source d := by
  rw [target?, getElem?_rows_setMove, target?]
  split
  · have same := Std.LawfulEqOrd.eq_of_compare ‹compare origin source = .eq›
    have otherChar : c ≠ d := different.resolve_left fun apart => apart same
    cases dfa.rows[source]? <;> simp [Std.ExtTreeMap.getElem?_insert, otherChar]
  · rfl

end PatternAutomata.Dfa
