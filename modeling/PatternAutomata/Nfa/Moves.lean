import PatternAutomata.Nfa

/-!
# The moves of automata

An automaton is seen through its moves: triples of a source, a symbol and a target.  Every operation
that grows an automaton adds exactly the moves that it names, and none takes a move away.
-/

namespace PatternAutomata.Nfa

variable {S T : Type} [Ord S] [Std.TransOrd S] [Ord T] [Std.TransOrd T]

/-- There is a move from the source to the target on the symbol. -/
def HasMove (nfa : Nfa S) (source : S) (symbol : Symbol) (target : S) : Prop :=
  target ∈ nfa.targets source symbol

instance (nfa : Nfa S) (source : S) (symbol : Symbol) (target : S) :
    Decidable (nfa.HasMove source symbol target) :=
  inferInstanceAs (Decidable (target ∈ nfa.targets source symbol))

theorem hasMove_iff {nfa : Nfa S} {source target : S} {symbol : Symbol} :
    nfa.HasMove source symbol target ↔
      ∃ row targets, nfa.rows[source]? = some row ∧ row[symbol]? = some targets ∧
        target ∈ targets := by
  rw [HasMove, targets, targets?]
  cases nfa.rows[source]? with
  | none => simp
  | some row => cases present : row[symbol]? <;> simp [present]

@[simp]
theorem hasMove_singleton {start source target : S} {symbol : Symbol} :
    ¬(singleton start).HasMove source symbol target := by
  simp [HasMove, targets, targets?, singleton]

@[simp]
theorem hasMove_addState {nfa : Nfa S} {state source target : S} {symbol : Symbol} :
    (nfa.addState state).HasMove source symbol target ↔ nfa.HasMove source symbol target :=
  Iff.rfl

@[simp]
theorem hasMove_markAccepting {nfa : Nfa S} {state source target : S} {symbol : Symbol} :
    (nfa.markAccepting state).HasMove source symbol target ↔ nfa.HasMove source symbol target :=
  Iff.rfl

@[simp]
theorem hasMove_clearAccepting {nfa : Nfa S} {source target : S} {symbol : Symbol} :
    nfa.clearAccepting.HasMove source symbol target ↔ nfa.HasMove source symbol target :=
  Iff.rfl

theorem Row.getElem?_add {row : Row S} {label symbol : Symbol} {target : S} :
    (row.add label target)[symbol]? =
      if label = symbol then some ((row[symbol]?.getD ∅).insert target) else row[symbol]? := by
  rw [Row.add, Std.ExtTreeMap.getElem?_alter]
  by_cases same : label = symbol
  · subst same
    simp
  · simp [same]

theorem Row.getElem?_join {first second : Row S} {symbol : Symbol} :
    (first.join second)[symbol]? =
      (second[symbol]?.map fun targets => first[symbol]?.elim targets (· ∪ targets)).or
        first[symbol]? :=
  OrderedMap.getElem?_merge

theorem Row.getElem?_relabel {f : S → T} {row : Row S} {symbol : Symbol} :
    (row.relabel f)[symbol]? = row[symbol]?.map (OrderedSet.image f) :=
  Std.ExtTreeMap.getElem?_map

variable [Std.LawfulEqOrd S]

theorem getElem?_rows_addMove {nfa : Nfa S} {origin goal source : S} {label : Symbol} :
    (nfa.addMove origin label goal).rows[source]? =
      if compare origin source = .eq then some (Row.add (nfa.rows[source]?.getD ∅) label goal)
      else nfa.rows[source]? := by
  change (nfa.rows.alter origin _)[source]? = _
  rw [Std.ExtTreeMap.getElem?_alter]
  by_cases same : compare origin source = .eq
  · have equal := Std.LawfulEqOrd.eq_of_compare same
    subst equal
    simp
  · simp [same]

theorem getElem?_rows_absorb {nfa other : Nfa S} {source : S} :
    (nfa.absorb other).rows[source]? =
      (other.rows[source]?.map fun row => nfa.rows[source]?.elim row (Row.join · row)).or
        nfa.rows[source]? :=
  OrderedMap.getElem?_merge

@[simp]
theorem hasMove_addMove {nfa : Nfa S} {origin goal source target : S} {label symbol : Symbol} :
    (nfa.addMove origin label goal).HasMove source symbol target ↔
      (source = origin ∧ symbol = label ∧ target = goal) ∨ nfa.HasMove source symbol target := by
  rw [HasMove, targets, targets?, getElem?_rows_addMove]
  by_cases sameSource : compare origin source = .eq
  · have equal := Std.LawfulEqOrd.eq_of_compare sameSource
    subst equal
    rw [if_pos sameSource, Option.bind_some, Row.getElem?_add, HasMove, targets, targets?]
    by_cases sameSymbol : label = symbol
    · subst sameSymbol
      cases nfa.rows[origin]? <;> simp [eq_comm (a := goal)]
    · have different : symbol ≠ label := Ne.symm sameSymbol
      cases nfa.rows[origin]? <;> simp [sameSymbol, different]
  · have different : source ≠ origin := by
      intro equal
      exact sameSource (Std.LawfulEqOrd.compare_eq_iff_eq.mpr equal.symm)
    rw [if_neg sameSource]
    simp [different, HasMove, targets, targets?]

@[simp]
theorem hasMove_absorb {nfa other : Nfa S} {source target : S} {symbol : Symbol} :
    (nfa.absorb other).HasMove source symbol target ↔
      nfa.HasMove source symbol target ∨ other.HasMove source symbol target := by
  simp only [HasMove, targets, targets?, getElem?_rows_absorb]
  cases other.rows[source]? with
  | none => simp
  | some otherRow =>
    cases nfa.rows[source]? with
    | none => simp
    | some row =>
      simp only [Option.map_some, Option.elim_some, Option.some_or, Option.bind_some,
        Row.getElem?_join]
      cases otherRow[symbol]? <;> cases row[symbol]? <;> simp [Std.ExtTreeSet.mem_union_iff]

end PatternAutomata.Nfa
