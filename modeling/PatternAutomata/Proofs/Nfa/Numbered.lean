import PatternAutomata.Pattern.Nested
import PatternAutomata.Proofs.Nfa.Parts

/-!
# Automata over numbers

The operations on automata whose states are numbers: the greatest state, shifts, epsilon moves from
several states at once, and several accepting states at once.
-/

namespace PatternAutomata.Nfa

private theorem foldl_max_cases (numbers : List Nat) (start : Nat) :
    numbers.foldl max start = start ∨ numbers.foldl max start ∈ numbers := by
  induction numbers generalizing start with
  | nil => exact .inl rfl
  | cons first numbers ih =>
      rw [List.foldl_cons]
      rcases ih (max start first) with same | member
      · rw [same]
        rcases Nat.le_total first start with below | above
        · exact .inl (Nat.max_eq_left below)
        · rw [Nat.max_eq_right above]
          exact .inr List.mem_cons_self
      · exact .inr (List.mem_cons_of_mem first member)

private theorem le_foldl_max (numbers : List Nat) (start : Nat) :
    start ≤ numbers.foldl max start ∧ ∀ number ∈ numbers, number ≤ numbers.foldl max start := by
  induction numbers generalizing start with
  | nil => simp
  | cons first numbers ih =>
      obtain ⟨above, bound⟩ := ih (max start first)
      have first_le : max start first ≤ numbers.foldl max (max start first) := above
      refine ⟨by rw [List.foldl_cons]; omega, ?_⟩
      intro number member
      rcases List.mem_cons.mp member with rfl | later
      · rw [List.foldl_cons]
        omega
      · exact bound number later

section Greatest

variable {nfa : Nfa Nat} {state : Nat}

theorem greatest_eq_foldl : nfa.greatest = nfa.states.toList.foldl max 0 :=
  Std.ExtTreeSet.foldl_eq_foldl_toList

theorem le_greatest (member : state ∈ nfa.states) : state ≤ nfa.greatest := by
  rw [greatest_eq_foldl]
  exact (le_foldl_max _ 0).2 state (Std.ExtTreeSet.mem_toList.mpr member)

theorem greatest_mem (nonempty : state ∈ nfa.states) : nfa.greatest ∈ nfa.states := by
  rcases foldl_max_cases nfa.states.toList 0 with zero | member
  · have bound := le_greatest nonempty
    rw [greatest_eq_foldl, zero] at bound ⊢
    rwa [Nat.le_zero.mp bound] at nonempty
  · rw [greatest_eq_foldl]
    exact Std.ExtTreeSet.mem_toList.mp member

theorem greatest_eq
    (member : state ∈ nfa.states) (bound : ∀ other ∈ nfa.states, other ≤ state) :
    nfa.greatest = state :=
  Nat.le_antisymm (bound nfa.greatest (greatest_mem member)) (le_greatest member)

end Greatest

section Shift

variable {nfa : Nfa Nat} {offset : Nat}

theorem injective_add (offset : Nat) : Function.Injective (· + offset) := by
  intro first second same
  exact Nat.add_right_cancel same

@[simp]
theorem start_shift : (nfa.shift offset).start = nfa.start + offset := rfl

@[simp]
theorem alphabet_shift : (nfa.shift offset).alphabet = nfa.alphabet := rfl

@[simp]
theorem mem_states_shift {state : Nat} :
    state ∈ (nfa.shift offset).states ↔ ∃ origin ∈ nfa.states, origin + offset = state :=
  mem_states_relabel

@[simp]
theorem mem_accepting_shift {state : Nat} :
    state ∈ (nfa.shift offset).accepting ↔ ∃ origin ∈ nfa.accepting, origin + offset = state :=
  mem_accepting_relabel

@[simp]
theorem hasMove_shift {source target : Nat} {symbol : Symbol} :
    (nfa.shift offset).HasMove source symbol target ↔
      ∃ origin goal, nfa.HasMove origin symbol goal ∧
        origin + offset = source ∧ goal + offset = target :=
  hasMove_relabel_iff (.of_injective (injective_add offset))

theorem Built.shift (built : nfa.Built) : (nfa.shift offset).Built :=
  built.relabel (· + offset)

theorem shift_shift {further : Nat} :
    (nfa.shift offset).shift further = nfa.shift (offset + further) := by
  have inOrder : OrderedMap.MergesInOrder (· + offset) (· + further) (· ∈ nfa.rows) :=
    .of_injective fun _ _ _ _ same => injective_add offset (injective_add further same)
  rw [Nfa.shift, Nfa.shift, relabel_relabel inOrder]
  congr 1
  funext state
  exact Nat.add_assoc state offset further

theorem greatest_shift (nonempty : nfa.start ∈ nfa.states) :
    (nfa.shift offset).greatest = nfa.greatest + offset := by
  apply greatest_eq
  · exact mem_states_shift.mpr ⟨nfa.greatest, greatest_mem nonempty, rfl⟩
  · intro other member
    obtain ⟨origin, among, rfl⟩ := mem_states_shift.mp member
    exact Nat.add_le_add_right (le_greatest among) offset

end Shift

/-- What no step of a fold changes. -/
theorem foldl_eq
    {α β γ : Type} {step : β → α → β} (value : β → γ)
    (each : ∀ before item, value (step before item) = value before)
    (items : List α) (start : β) :
    value (items.foldl step start) = value start := by
  induction items generalizing start with
  | nil => rfl
  | cons item items ih => rw [List.foldl_cons, ih, each]

/-- What holds after a fold, if every step may add to what holds. -/
theorem foldl_iff
    {α β : Type} {step : β → α → β} (holds : β → Prop) {adds : α → Prop}
    (each : ∀ before item, holds (step before item) ↔ holds before ∨ adds item)
    (items : List α) (start : β) :
    holds (items.foldl step start) ↔ holds start ∨ ∃ item ∈ items, adds item := by
  induction items generalizing start with
  | nil => simp
  | cons item items ih =>
      rw [List.foldl_cons, ih, each, or_assoc]
      simp only [List.mem_cons, exists_eq_or_imp]

section AddEpsilons

variable {nfa : Nfa Nat} {sources : OrderedSet Nat} {target : Nat}

@[simp]
theorem start_addEpsilons : (nfa.addEpsilons sources target).start = nfa.start := by
  apply foldl_eq start
  intro before state
  rfl

@[simp]
theorem alphabet_addEpsilons : (nfa.addEpsilons sources target).alphabet = nfa.alphabet := by
  apply foldl_eq alphabet
  intro before state
  rfl

@[simp]
theorem accepting_addEpsilons : (nfa.addEpsilons sources target).accepting = nfa.accepting := by
  apply foldl_eq accepting
  intro before state
  rfl

@[simp]
theorem mem_states_addEpsilons {state : Nat} :
    state ∈ (nfa.addEpsilons sources target).states ↔
      state ∈ nfa.states ∨ ∃ source ∈ sources, state = target ∨ state = source := by
  have each : ∀ (before : Nfa Nat) (source : Nat),
      state ∈ (before.addMove source .epsilon target).states ↔
        state ∈ before.states ∨ (state = target ∨ state = source) := by
    intro before source
    rw [mem_states_addMove, ← or_assoc, or_comm]
  apply (foldl_iff (state ∈ ·.states) each sources.toList nfa).trans
  simp only [Std.ExtTreeSet.mem_toList]

@[simp]
theorem hasMove_addEpsilons {source goal : Nat} {symbol : Symbol} :
    (nfa.addEpsilons sources target).HasMove source symbol goal ↔
      nfa.HasMove source symbol goal ∨ source ∈ sources ∧ symbol = .epsilon ∧ goal = target := by
  have each : ∀ (before : Nfa Nat) (origin : Nat),
      (before.addMove origin .epsilon target).HasMove source symbol goal ↔
        before.HasMove source symbol goal ∨
          (source = origin ∧ symbol = .epsilon ∧ goal = target) := by
    intro before origin
    rw [hasMove_addMove, or_comm]
  apply (foldl_iff (·.HasMove source symbol goal) each sources.toList nfa).trans
  simp only [Std.ExtTreeSet.mem_toList, and_left_comm, exists_eq_left']

theorem Built.addEpsilons (built : nfa.Built) : (nfa.addEpsilons sources target).Built :=
  List.foldlRecOn sources.toList _ built fun _ before source _ =>
    before.addMove source .epsilon target

end AddEpsilons

section MarkAllAccepting

variable {nfa : Nfa Nat} {marked : OrderedSet Nat}

@[simp]
theorem start_markAllAccepting : (nfa.markAllAccepting marked).start = nfa.start := by
  apply foldl_eq start
  intro before state
  rfl

@[simp]
theorem alphabet_markAllAccepting : (nfa.markAllAccepting marked).alphabet = nfa.alphabet := by
  apply foldl_eq alphabet
  intro before state
  rfl

@[simp]
theorem mem_states_markAllAccepting {state : Nat} :
    state ∈ (nfa.markAllAccepting marked).states ↔ state ∈ nfa.states ∨ state ∈ marked := by
  have each : ∀ (before : Nfa Nat) (other : Nat),
      state ∈ (before.markAccepting other).states ↔ state ∈ before.states ∨ state = other := by
    intro before other
    rw [mem_states_markAccepting, or_comm]
  apply (foldl_iff (state ∈ ·.states) each marked.toList nfa).trans
  simp only [Std.ExtTreeSet.mem_toList, exists_eq_right']

@[simp]
theorem mem_accepting_markAllAccepting {state : Nat} :
    state ∈ (nfa.markAllAccepting marked).accepting ↔ state ∈ nfa.accepting ∨ state ∈ marked := by
  have each : ∀ (before : Nfa Nat) (other : Nat),
      state ∈ (before.markAccepting other).accepting ↔
        state ∈ before.accepting ∨ state = other := by
    intro before other
    rw [mem_accepting_markAccepting, or_comm]
  apply (foldl_iff (state ∈ ·.accepting) each marked.toList nfa).trans
  simp only [Std.ExtTreeSet.mem_toList, exists_eq_right']

theorem rows_markAllAccepting : (nfa.markAllAccepting marked).rows = nfa.rows := by
  apply foldl_eq rows
  intro before state
  rfl

@[simp]
theorem hasMove_markAllAccepting {source target : Nat} {symbol : Symbol} :
    (nfa.markAllAccepting marked).HasMove source symbol target ↔
      nfa.HasMove source symbol target := by
  rw [HasMove, HasMove, targets, targets, targets?, targets?, rows_markAllAccepting]

theorem Built.markAllAccepting (built : nfa.Built) : (nfa.markAllAccepting marked).Built :=
  List.foldlRecOn marked.toList _ built fun _ before state _ => before.markAccepting state

end MarkAllAccepting

end PatternAutomata.Nfa
