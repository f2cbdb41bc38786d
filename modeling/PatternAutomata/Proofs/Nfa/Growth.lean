import PatternAutomata.Nfa.Growth
import PatternAutomata.Proofs.Nfa.Parts

/-!
# What has grown does not tell how

Each addition joins its contribution to the contents of an automaton, and takes nothing away.  A
closed automaton is determined by its start and its contents.  So neither the order of the additions
shows in what has grown, nor whether one was made again.
-/

namespace PatternAutomata.Nfa

namespace Contents

variable {S : Type} {first second : Contents S}

@[simp]
theorem chars_sup : (first ⊔ second).chars = first.chars ∪ second.chars := rfl

@[simp]
theorem states_sup : (first ⊔ second).states = first.states ∪ second.states := rfl

@[simp]
theorem accepting_sup : (first ⊔ second).accepting = first.accepting ∪ second.accepting := rfl

@[simp]
theorem moves_sup : (first ⊔ second).moves = first.moves ∪ second.moves := rfl

end Contents

section Contributions

variable {S : Type} {start : S} {first second additions : List (Addition S)} {whole : Contents S}

theorem Addition.contributions_le_iff :
    Addition.contributions additions ≤ whole ↔
      ∀ addition ∈ additions, addition.contribution ≤ whole := by
  induction additions with
  | nil => simp [Addition.contributions]
  | cons addition additions ih =>
      rw [Addition.contributions, sup_le_iff, ih, List.forall_mem_cons]

theorem contributed_le_iff :
    contributed start additions ≤ whole ↔
      .ofState start ≤ whole ∧ ∀ addition ∈ additions, addition.contribution ≤ whole := by
  rw [contributed, sup_le_iff, Addition.contributions_le_iff]

theorem ofState_le_contributed : .ofState start ≤ contributed start additions :=
  (contributed_le_iff.mp le_rfl).1

theorem contribution_le_contributed {addition : Addition S} (member : addition ∈ additions) :
    addition.contribution ≤ contributed start additions :=
  (contributed_le_iff.mp le_rfl).2 addition member

theorem contributed_mono (among : ∀ addition ∈ first, addition ∈ second) :
    contributed start first ≤ contributed start second := by
  apply contributed_le_iff.mpr
  refine ⟨ofState_le_contributed, ?_⟩
  intro addition member
  exact contribution_le_contributed (among addition member)

theorem contributed_eq_of_mem_iff
    (same : ∀ addition, addition ∈ first ↔ addition ∈ second) :
    contributed start first = contributed start second := by
  apply le_antisymm
  · exact contributed_mono fun addition => (same addition).mp
  · exact contributed_mono fun addition => (same addition).mpr

/-- What has grown by some additions contributes nothing new after these additions. -/
theorem contribution_automaton_le :
    (Addition.automaton start additions).contribution ≤ contributed start additions :=
  ⟨Set.Subset.rfl, Set.Subset.rfl, Set.empty_subset _, Set.Subset.rfl⟩

theorem contributed_automaton_self :
    contributed start (first ++ .automaton start first :: second) =
      contributed start (first ++ second) := by
  apply le_antisymm
  · apply contributed_le_iff.mpr
    refine ⟨ofState_le_contributed, ?_⟩
    intro addition member
    rcases List.mem_append.mp member with before | later
    · exact contribution_le_contributed (List.mem_append_left second before)
    · rcases List.mem_cons.mp later with rfl | after
      · apply contribution_automaton_le.trans
        exact contributed_mono fun _ => List.mem_append_left second
      · exact contribution_le_contributed (List.mem_append_right first after)
  · apply contributed_mono
    intro addition member
    rcases List.mem_append.mp member with before | after
    · exact List.mem_append_left _ before
    · exact List.mem_append_right first (List.mem_cons_of_mem _ after)

end Contributions

section Start

variable {S : Type} [Ord S] [Std.TransOrd S]

theorem start_add (nfa : Nfa S) (addition : Addition S) :
    (nfa.add addition).start = nfa.start := by
  cases addition with
  | state added => rw [add, start_addState]
  | move source symbol target => rw [add, start_addMove]
  | accepting added => rw [add, start_markAccepting]
  | automaton start additions => rw [add, start_absorb]

theorem start_addAll (nfa : Nfa S) (additions : List (Addition S)) :
    (nfa.addAll additions).start = nfa.start := by
  induction additions generalizing nfa with
  | nil => rw [addAll]
  | cons addition additions ih => rw [addAll, ih, start_add]

theorem start_grow (start : S) (additions : List (Addition S)) :
    (grow start additions).start = start :=
  start_addAll (singleton start) additions

end Start

section Operations

variable {S : Type} [Ord S] [Std.TransOrd S] [Std.LawfulEqOrd S]
  {nfa other : Nfa S} {start state source target : S} {symbol : Symbol}

theorem contents_singleton : (singleton start).contents = .ofState start := by
  apply Contents.ext
  · ext c
    simp [contents, Contents.ofState]
  · ext state
    simp [contents, Contents.ofState]
  · ext state
    simp [contents, Contents.ofState]
  · ext ⟨source, symbol, target⟩
    simp [contents, Contents.ofState]

theorem contents_addState :
    (nfa.addState state).contents = nfa.contents ⊔ .ofState state := by
  apply Contents.ext
  · ext c
    simp [contents, Contents.ofState]
  · ext other
    simp [contents, Contents.ofState]
  · ext other
    simp [contents, Contents.ofState]
  · ext ⟨source, symbol, target⟩
    simp [contents, Contents.ofState]

theorem contents_addMove :
    (nfa.addMove source symbol target).contents =
      nfa.contents ⊔ .ofMove source symbol target := by
  apply Contents.ext
  · ext c
    simp [contents, Contents.ofMove, or_comm]
  · ext state
    simp [contents, Contents.ofMove, or_left_comm, or_comm]
  · ext state
    simp [contents, Contents.ofMove]
  · ext ⟨origin, label, goal⟩
    simp [contents, Contents.ofMove, or_comm]

theorem contents_markAccepting :
    (nfa.markAccepting state).contents =
      nfa.contents ⊔ { Contents.ofState state with accepting := {state} } := by
  apply Contents.ext
  · ext c
    simp [contents, Contents.ofState]
  · ext other
    simp [contents, Contents.ofState]
  · ext other
    simp [contents]
  · ext ⟨source, symbol, target⟩
    simp [contents, Contents.ofState]

theorem contents_absorb :
    (nfa.absorb other).contents = nfa.contents ⊔ { other.contents with accepting := ∅ } := by
  apply Contents.ext
  · ext c
    simp [contents]
  · ext state
    simp [contents]
  · ext state
    simp [contents]
  · ext ⟨source, symbol, target⟩
    simp [contents]

end Operations

mutual

/-- An addition joins its contribution to the contents. -/
theorem contents_add
    {S : Type} [Ord S] [Std.TransOrd S] [Std.LawfulEqOrd S] (nfa : Nfa S) (addition : Addition S) :
    (nfa.add addition).contents = nfa.contents ⊔ addition.contribution := by
  cases addition with
  | state added => exact contents_addState
  | move source symbol target => exact contents_addMove
  | accepting added => exact contents_markAccepting
  | automaton start additions =>
      have grown := contents_addAll (singleton start) additions
      rw [add, contents_absorb, grown, contents_singleton]
      rfl

theorem contents_addAll
    {S : Type} [Ord S] [Std.TransOrd S] [Std.LawfulEqOrd S] (nfa : Nfa S)
    (additions : List (Addition S)) :
    (nfa.addAll additions).contents = nfa.contents ⊔ Addition.contributions additions := by
  cases additions with
  | nil => rw [addAll, Addition.contributions, sup_bot_eq]
  | cons addition additions =>
      have first := contents_add nfa addition
      have rest := contents_addAll (nfa.add addition) additions
      rw [addAll, rest, first, Addition.contributions, sup_assoc]

end

mutual

theorem Built.add
    {S : Type} [Ord S] [Std.TransOrd S] [Std.LawfulEqOrd S] {nfa : Nfa S} (built : nfa.Built)
    (addition : Addition S) :
    (nfa.add addition).Built := by
  cases addition with
  | state added => exact built.addState added
  | move source symbol target => exact built.addMove source symbol target
  | accepting added => exact built.markAccepting added
  | automaton start additions =>
      have grown := (Built.singleton start).addAll additions
      rw [Nfa.add]
      exact built.absorb grown

theorem Built.addAll
    {S : Type} [Ord S] [Std.TransOrd S] [Std.LawfulEqOrd S] {nfa : Nfa S} (built : nfa.Built)
    (additions : List (Addition S)) :
    (nfa.addAll additions).Built := by
  cases additions with
  | nil =>
      rw [Nfa.addAll]
      exact built
  | cons addition additions =>
      have first := built.add addition
      rw [Nfa.addAll]
      exact first.addAll additions

end

section Grow

variable {S : Type} [Ord S] [Std.TransOrd S] [Std.LawfulEqOrd S] {start : S}

/-- Closed automata with the same start and the same contents are equal. -/
theorem Closed.eq_of_contents_eq
    {first second : Nfa S} (firstClosed : first.Closed) (secondClosed : second.Closed)
    (start : first.start = second.start) (same : first.contents = second.contents) :
    first = second := by
  apply firstClosed.ext secondClosed
  · intro c
    exact Set.ext_iff.mp (congrArg Contents.chars same) c
  · intro state
    exact Set.ext_iff.mp (congrArg Contents.states same) state
  · exact start
  · intro source symbol target
    exact Set.ext_iff.mp (congrArg Contents.moves same) (source, symbol, target)
  · intro state
    exact Set.ext_iff.mp (congrArg Contents.accepting same) state

theorem contents_grow (start : S) (additions : List (Addition S)) :
    (grow start additions).contents = contributed start additions := by
  rw [grow, contents_addAll, contents_singleton, contributed]

theorem closed_grow (start : S) (additions : List (Addition S)) :
    (grow start additions).Closed :=
  ((Built.singleton start).addAll additions).closed

theorem grow_eq_of_contributed_eq {first second : List (Addition S)}
    (same : contributed start first = contributed start second) :
    grow start first = grow start second := by
  apply (closed_grow start first).eq_of_contents_eq (closed_grow start second)
  · rw [start_grow, start_grow]
  · rw [contents_grow, contents_grow, same]

/-- An automaton that grows from a state consists of exactly what its additions contribute, and this
determines it: the order of the additions and their repetition do not show, an automaton that is
added to itself stays as it is, and no move is lost again. -/
theorem grow_eq_iff_contributed_eq (start : S) :
    (∀ additions, (grow start additions).start = start ∧
        (grow start additions).contents = contributed start additions) ∧
      (∀ first second, grow start first = grow start second ↔
        contributed start first = contributed start second) ∧
      (∀ first second, (∀ addition, addition ∈ first ↔ addition ∈ second) →
        grow start first = grow start second) ∧
      (∀ before after, grow start (before ++ .automaton start before :: after) =
        grow start (before ++ after)) ∧
      ∀ before after source symbol target,
        (source, symbol, target) ∈ (contributed start before).moves →
          (grow start (before ++ after)).HasMove source symbol target := by
  refine ⟨?_, ?_, ?_, ?_, ?_⟩
  · intro additions
    exact ⟨start_grow start additions, contents_grow start additions⟩
  · intro first second
    constructor
    · intro same
      rw [← contents_grow, ← contents_grow, same]
    · exact grow_eq_of_contributed_eq
  · intro first second same
    exact grow_eq_of_contributed_eq (contributed_eq_of_mem_iff same)
  · intro before after
    exact grow_eq_of_contributed_eq contributed_automaton_self
  · intro before after source symbol target given
    have kept : contributed start before ≤ (grow start (before ++ after)).contents := by
      rw [contents_grow]
      exact contributed_mono fun _ => List.mem_append_left after
    exact kept.2.2.2 given

/-- A case in which an automaton with an accepting start is added between moves, and the additions
come again in another order. -/
theorem grow_eq_iff_contributed_eq_overlapping :
    let part : Addition Nat := .automaton 5 [.move 0 (.char 'a') 2, .accepting 5]
    let first := [.move 0 (.char 'a') 1, part, .accepting 1]
    let second := [part, .accepting 1, .move 0 (.char 'a') 1, part]
    (∀ addition, addition ∈ first ↔ addition ∈ second) ∧ grow 0 first = grow 0 second ∧
      grow 0 (first ++ .automaton 0 first :: second) = grow 0 (first ++ second) ∧
      (grow 0 second).HasMove 0 (.char 'a') 1 ∧ (grow 0 second).HasMove 0 (.char 'a') 2 ∧
      grow 0 first ≠ grow 0 (.accepting 5 :: first) := by
  intro part first second
  obtain ⟨_, equal_iff, same, self, kept⟩ := grow_eq_iff_contributed_eq 0
  have members : ∀ addition, addition ∈ first ↔ addition ∈ second := by
    intro addition
    simp only [first, second, List.mem_cons, List.not_mem_nil, or_false]
    grind
  refine ⟨members, same first second members, self first second, ?_, ?_, ?_⟩
  · apply kept second []
    simp [contributed, Addition.contributions, Addition.contribution, Contents.ofMove, second]
  · apply kept second []
    simp [contributed, Addition.contributions, Addition.contribution, Contents.ofMove, second, part]
  · intro equal
    have accepting := congrArg Contents.accepting ((equal_iff first _).mp equal)
    have five := Set.ext_iff.mp accepting 5
    simp [contributed, Addition.contributions, Addition.contribution, Contents.ofState,
      Contents.ofMove, first, part] at five

end Grow

end PatternAutomata.Nfa
