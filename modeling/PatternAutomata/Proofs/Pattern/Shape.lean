import PatternAutomata.Pattern.Shape
import PatternAutomata.Proofs.Pattern.Construction

/-!
# The automata of patterns keep their shape

A part of the automaton of a pattern occupies an interval of numbers: it is entered at its first
state, left from its last one, and all other moves stay inside.  Every rule of the construction
lays such parts out one after the other and keeps the moves from the states that it does not join.
-/

namespace PatternAutomata

namespace Nfa

/-- What the moves from a state can be: they read on the way to the next state, or they skip to one
of two states, which may be the same. -/
inductive Fan (nfa : Nfa Nat) (state : Nat) : Prop where
  | reads (c : Char) :
      nfa.HasMove state (.char c) (state + 1) →
      (∀ symbol target, nfa.HasMove state symbol target →
        symbol.isEpsilon = false ∧ target = state + 1) →
      Fan nfa state
  | skips (first second : Nat) :
      (∀ symbol target, nfa.HasMove state symbol target ↔
        symbol = .epsilon ∧ (target = first ∨ target = second)) →
      Fan nfa state

namespace Fan

variable {nfa outer : Nfa Nat} {state offset : Nat}

theorem of_same_moves
    (fan : nfa.Fan state)
    (same : ∀ symbol target, outer.HasMove state symbol target ↔ nfa.HasMove state symbol target) :
    outer.Fan state := by
  cases fan with
  | reads c move only =>
      refine .reads c ((same _ _).mpr move) ?_
      intro symbol target move
      exact only symbol target ((same symbol target).mp move)
  | skips first second exact =>
      refine .skips first second ?_
      intro symbol target
      rw [same, exact]

theorem shift (fan : nfa.Fan state) : (nfa.shift offset).Fan (state + offset) := by
  cases fan with
  | reads c move only =>
      refine .reads c ?_ ?_
      · exact hasMove_shift.mpr ⟨state, state + 1, move, rfl, by omega⟩
      · intro symbol target move
        obtain ⟨origin, goal, inside, same, rfl⟩ := hasMove_shift.mp move
        obtain rfl : origin = state := by omega
        obtain ⟨reads, rfl⟩ := only symbol goal inside
        exact ⟨reads, by omega⟩
  | skips first second exact =>
      refine .skips (first + offset) (second + offset) ?_
      intro symbol target
      rw [hasMove_shift]
      constructor
      · intro move
        obtain ⟨origin, goal, inside, same, rfl⟩ := move
        obtain rfl : origin = state := by omega
        obtain ⟨epsilon, rfl | rfl⟩ := (exact symbol goal).mp inside
        · exact ⟨epsilon, .inl rfl⟩
        · exact ⟨epsilon, .inr rfl⟩
      · intro move
        obtain ⟨epsilon, rfl | rfl⟩ := move
        · exact ⟨state, first, (exact symbol first).mpr ⟨epsilon, .inl rfl⟩, rfl, rfl⟩
        · exact ⟨state, second, (exact symbol second).mpr ⟨epsilon, .inr rfl⟩, rfl, rfl⟩

end Fan

/-- The automaton occupies the numbers from its start to its only accepting state. -/
structure Occupies (nfa : Nfa Nat) (first final : Nat) : Prop where
  built : nfa.Built
  start_eq : nfa.start = first
  mem_states : ∀ state, state ∈ nfa.states ↔ first ≤ state ∧ state ≤ final
  mem_accepting : ∀ state, state ∈ nfa.accepting ↔ state = final
  within : ∀ source symbol target, nfa.HasMove source symbol target →
    source ≠ final ∧ target ≠ first
  fan : ∀ state, first ≤ state → state < final → nfa.Fan state

namespace Occupies

variable {nfa left right : Nfa Nat} {first middle final last : Nat}

theorem bounds
    (occupies : nfa.Occupies first final) {source target : Nat} {symbol : Symbol}
    (move : nfa.HasMove source symbol target) :
    (first ≤ source ∧ source < final) ∧ first < target ∧ target ≤ final := by
  have closed := occupies.built.closed
  have sourceBounds := (occupies.mem_states source).mp (closed.source_mem_of_hasMove move)
  have targetBounds := (occupies.mem_states target).mp (closed.target_mem_of_hasMove move)
  have apart := occupies.within source symbol target move
  omega

theorem not_hasMove
    (occupies : nfa.Occupies first final) {source target : Nat} {symbol : Symbol}
    (outside : source < first ∨ final ≤ source) :
    ¬nfa.HasMove source symbol target := by
  intro move
  have bounds := occupies.bounds move
  omega

theorem greatest_eq (occupies : nfa.Occupies first final) : nfa.greatest = final := by
  have accepting := (occupies.mem_accepting final).mpr rfl
  apply Nfa.greatest_eq (occupies.built.closed.accepting_mem final accepting)
  intro other member
  exact ((occupies.mem_states other).mp member).2

theorem shift (occupies : nfa.Occupies first final) (offset : Nat) :
    (nfa.shift offset).Occupies (first + offset) (final + offset) := by
  constructor
  · exact occupies.built.shift
  · rw [start_shift, occupies.start_eq]
  · intro state
    simp only [mem_states_shift, occupies.mem_states]
    constructor
    · intro member
      obtain ⟨origin, bounds, rfl⟩ := member
      omega
    · intro bounds
      exact ⟨state - offset, by omega, by omega⟩
  · intro state
    simp only [mem_accepting_shift, occupies.mem_accepting, exists_eq_left]
    exact eq_comm
  · intro source symbol target move
    obtain ⟨origin, goal, inside, rfl, rfl⟩ := hasMove_shift.mp move
    have apart := occupies.within origin symbol goal inside
    omega
  · intro state above below
    obtain ⟨origin, rfl⟩ : ∃ origin, origin + offset = state := ⟨state - offset, by omega⟩
    exact (occupies.fan origin (by omega) (by omega)).shift

theorem above (occupies : left.Occupies first middle) (behind : right.Occupies 0 last) :
    (left.above right).Occupies (middle + 1) (last + (middle + 1)) := by
  rw [Nfa.above, occupies.greatest_eq]
  simpa using behind.shift (middle + 1)

theorem oneOf {characters : List Char} (nonempty : characters ≠ []) :
    (oneOf characters).Occupies 0 1 := by
  obtain ⟨c, member⟩ := List.exists_mem_of_ne_nil characters nonempty
  have move : (Nfa.oneOf characters).HasMove 0 (.char c) 1 :=
    hasMove_oneOf.mpr ⟨rfl, rfl, c, member, rfl⟩
  constructor
  · exact built_oneOf
  · exact start_oneOf
  · intro state
    rw [mem_states_oneOf nonempty]
    omega
  · intro state
    exact accepting_oneOf
  · intro source symbol target move
    obtain ⟨rfl, rfl, _⟩ := hasMove_oneOf.mp move
    omega
  · intro state _ below
    obtain rfl : state = 0 := by omega
    refine .reads c move ?_
    intro symbol target move
    obtain ⟨_, rfl, d, _, rfl⟩ := hasMove_oneOf.mp move
    exact ⟨rfl, rfl⟩

theorem followedBy (occupies : left.Occupies 0 middle) (behind : right.Occupies 0 last) :
    (left.followedBy right).Occupies 0 (last + (middle + 1)) := by
  have after := occupies.above behind
  have moves : ∀ {source target : Nat} {symbol : Symbol},
      (left.followedBy right).HasMove source symbol target ↔
        left.HasMove source symbol target ∨ (left.above right).HasMove source symbol target ∨
          source = middle ∧ symbol = .epsilon ∧ target = middle + 1 := by
    intro source target symbol
    rw [hasMove_followedBy, occupies.mem_accepting, after.start_eq]
  constructor
  · exact occupies.built.followedBy behind.built
  · rw [start_followedBy, occupies.start_eq]
  · intro state
    rw [mem_states_followedBy occupies.built behind.built, occupies.mem_states, after.mem_states]
    omega
  · intro state
    rw [mem_accepting_followedBy, after.mem_accepting]
  · intro source symbol target move
    rcases moves.mp move with inFirst | inSecond | exit
    · have bounds := occupies.bounds inFirst
      omega
    · have bounds := after.bounds inSecond
      omega
    · omega
  · intro state _ below
    rcases Nat.lt_trichotomy state middle with before | rfl | behindMiddle
    · apply (occupies.fan state (Nat.zero_le state) before).of_same_moves
      intro symbol target
      have notSecond : ¬(left.above right).HasMove state symbol target :=
        after.not_hasMove (.inl (by omega))
      have notExit : state ≠ middle := by omega
      simp [moves, notSecond, notExit]
    · refine .skips (state + 1) (state + 1) ?_
      intro symbol target
      have notFirst : ¬left.HasMove state symbol target :=
        occupies.not_hasMove (.inr (Nat.le_refl state))
      have notSecond : ¬(left.above right).HasMove state symbol target :=
        after.not_hasMove (.inl (Nat.lt_succ_self state))
      simp [moves, notFirst, notSecond]
    · apply (after.fan state behindMiddle below).of_same_moves
      intro symbol target
      have notFirst : ¬left.HasMove state symbol target :=
        occupies.not_hasMove (.inr (Nat.le_of_lt behindMiddle))
      have notExit : state ≠ middle := by omega
      simp [moves, notFirst, notExit]

theorem finalOfEither_eq (occupies : left.Occupies 0 middle) (other : right.Occupies 0 last) :
    finalOfEither left right = last + middle + 3 := by
  rw [finalOfEither, ((occupies.shift 1).above other).greatest_eq]
  omega

theorem moves_either
    (occupies : left.Occupies 0 middle) (other : right.Occupies 0 last) {source target : Nat}
    {symbol : Symbol} :
    (left.either right).HasMove source symbol target ↔
      (left.shift 1).HasMove source symbol target ∨
        ((left.shift 1).above right).HasMove source symbol target ∨
          symbol = .epsilon ∧ (source = 0 ∧ (target = 1 ∨ target = middle + 2) ∨
            (source = middle + 1 ∨ source = last + middle + 2) ∧
              target = last + middle + 3) := by
  have first := occupies.shift 1
  have second := first.above other
  have reorder : last + (middle + 1 + 1) = last + middle + 2 := by omega
  rw [hasMove_either, first.mem_accepting, second.mem_accepting, first.start_eq, second.start_eq,
    occupies.finalOfEither_eq other, reorder]

theorem fan_either
    (occupies : left.Occupies 0 middle) (other : right.Occupies 0 last) {state : Nat}
    (below : state < last + middle + 3) :
    (left.either right).Fan state := by
  have first := occupies.shift 1
  have second := first.above other
  have moves : ∀ {symbol target}, (left.either right).HasMove state symbol target ↔ _ :=
    occupies.moves_either other
  have notLeft : ∀ {symbol target}, state < 1 ∨ middle + 1 ≤ state →
      ¬(left.shift 1).HasMove state symbol target := by
    intro symbol target outside
    exact first.not_hasMove (by omega)
  have notRight : ∀ {symbol target}, state < middle + 2 ∨ last + middle + 2 ≤ state →
      ¬((left.shift 1).above right).HasMove state symbol target := by
    intro symbol target outside
    exact second.not_hasMove (by omega)
  -- The fresh start, the left part and its exit, the right part and its exit, in this order.
  have cases : state = 0 ∨ (1 ≤ state ∧ state < middle + 1) ∨ state = middle + 1 ∨
      (middle + 2 ≤ state ∧ state < last + middle + 2) ∨ state = last + middle + 2 := by
    omega
  rcases cases with rfl | inLeft | rfl | inRight | rfl
  · refine .skips 1 (middle + 2) ?_
    intro symbol target
    simp [moves, notLeft (.inl Nat.zero_lt_one), notRight (.inl (Nat.succ_pos _))]
  · apply (first.fan state (by omega) (by omega)).of_same_moves
    intro symbol target
    have away : state ≠ 0 ∧ state ≠ middle + 1 ∧ state ≠ last + middle + 2 := by omega
    simp [moves, notRight (.inl (by omega)), away]
  · refine .skips (last + middle + 3) (last + middle + 3) ?_
    intro symbol target
    simp [moves, notLeft (.inr (Nat.le_refl _)), notRight (.inl (Nat.lt_succ_self _))]
  · apply (second.fan state (by omega) (by omega)).of_same_moves
    intro symbol target
    have away : state ≠ 0 ∧ state ≠ middle + 1 ∧ state ≠ last + middle + 2 := by omega
    simp [moves, notLeft (.inr (by omega)), away]
  · refine .skips (last + middle + 3) (last + middle + 3) ?_
    intro symbol target
    simp [moves, notLeft (.inr (by omega)), notRight (.inr (Nat.le_refl _))]

theorem either (occupies : left.Occupies 0 middle) (other : right.Occupies 0 last) :
    (left.either right).Occupies 0 (last + middle + 3) := by
  have first := occupies.shift 1
  have second := first.above other
  have final := occupies.finalOfEither_eq other
  constructor
  · exact occupies.built.either other.built
  · exact start_either
  · intro state
    rw [mem_states_either occupies.built other.built, first.mem_states, second.mem_states, final]
    omega
  · intro state
    rw [mem_accepting_either, final]
  · intro source symbol target move
    rcases (occupies.moves_either other).mp move with inLeft | inRight | exit
    · have bounds := first.bounds inLeft
      omega
    · have bounds := second.bounds inRight
      omega
    · omega
  · intro state _ below
    exact occupies.fan_either other below

theorem quantified (occupies : nfa.Occupies 0 last) (mark : Quantifier) :
    (nfa.quantified mark).Occupies 0 (last + 2) := by
  have inner := occupies.shift 1
  have moves : ∀ {source target : Nat} {symbol : Symbol},
      (nfa.quantified mark).HasMove source symbol target ↔
        (nfa.shift 1).HasMove source symbol target ∨
          symbol = .epsilon ∧
            (source = 0 ∧ (target = 1 ∨ mark.allowsNone = true ∧ target = last + 2) ∨
              source = last + 1 ∧
                (target = last + 2 ∨ mark.allowsMany = true ∧ target = 1)) := by
    intro source target symbol
    rw [hasMove_quantified, inner.mem_accepting, inner.start_eq, inner.greatest_eq]
  constructor
  · exact occupies.built.quantified
  · exact start_quantified
  · intro state
    rw [mem_states_quantified occupies.built, inner.mem_states, inner.greatest_eq]
    omega
  · intro state
    rw [mem_accepting_quantified, inner.greatest_eq]
  · intro source symbol target move
    rcases moves.mp move with inside | exit
    · have bounds := inner.bounds inside
      omega
    · omega
  · intro state _ below
    have cases : state = 0 ∨ (1 ≤ state ∧ state < last + 1) ∨ state = last + 1 := by omega
    rcases cases with rfl | inside | rfl
    · refine .skips 1 (if mark.allowsNone then last + 2 else 1) ?_
      intro symbol target
      have notInside : ¬(nfa.shift 1).HasMove 0 symbol target :=
        inner.not_hasMove (.inl Nat.zero_lt_one)
      simp only [moves, notInside, false_or]
      split <;> simp [*]
    · apply (inner.fan state (by omega) (by omega)).of_same_moves
      intro symbol target
      have away : state ≠ 0 ∧ state ≠ last + 1 := by omega
      simp [moves, away]
    · refine .skips (last + 2) (if mark.allowsMany then 1 else last + 2) ?_
      intro symbol target
      have notInside : ¬(nfa.shift 1).HasMove (last + 1) symbol target :=
        inner.not_hasMove (.inr (Nat.le_refl _))
      simp only [moves, notInside, false_or]
      split <;> simp [*]

end Occupies

section Rows

variable {nfa : Nfa Nat} {state : Nat}

theorem hasMove_of_row
    {row : Row Nat} (present : nfa.rows[state]? = some row) {symbol : Symbol} {target : Nat} :
    nfa.HasMove state symbol target ↔ target ∈ row[symbol]?.getD ∅ := by
  rw [HasMove, targets, targets?, present]
  rfl

theorem Closed.getElem?_rows_eq_none
    (closed : nfa.Closed) (stuck : ∀ symbol target, ¬nfa.HasMove state symbol target) :
    nfa.rows[state]? = none := by
  cases present : nfa.rows[state]? with
  | none => rfl
  | some row =>
      have rowClosed := closed.row_closed state row present
      refine absurd (Row.eq_of_targets_eq rowClosed.targets_nonempty (by simp) ?_)
        rowClosed.nonempty
      intro symbol
      apply Std.ExtTreeSet.ext_mem
      intro target
      rw [← hasMove_of_row present]
      simpa using stuck symbol target

/-- The moves of a fan make up a row that reads or skips. -/
theorem Fan.exists_row (fan : nfa.Fan state) (closed : nfa.Closed) :
    ∃ row, nfa.rows[state]? = some row ∧ (row.ReadsTo (state + 1) ∨ row.Skips) := by
  cases fan with
  | reads c move only =>
      obtain ⟨row, _, present, _, _⟩ := hasMove_iff.mp move
      have rowClosed := closed.row_closed state row present
      refine ⟨row, present, .inl ⟨rowClosed.nonempty, ?_⟩⟩
      intro symbol targets entry
      have goesOn : ∀ target, target ∈ targets → symbol.isEpsilon = false ∧ target = state + 1 := by
        intro target member
        apply only symbol target
        rw [hasMove_of_row present, entry]
        exact member
      obtain ⟨target, member⟩ :=
        OrderedSet.exists_mem_of_ne_empty (rowClosed.targets_nonempty symbol targets entry)
      obtain ⟨reads, rfl⟩ := goesOn target member
      refine ⟨reads, Std.ExtTreeSet.ext_mem fun other => ?_⟩
      rw [OrderedSet.mem_singleton]
      constructor
      · intro among
        exact (goesOn other among).2
      · rintro rfl
        exact member
  | skips first second skips =>
      have move : nfa.HasMove state .epsilon first := (skips _ _).mpr ⟨rfl, .inl rfl⟩
      obtain ⟨row, targets, present, entry, _⟩ := hasMove_iff.mp move
      have rowClosed := closed.row_closed state row present
      refine ⟨row, present, .inr ⟨targets, ?_, ?_⟩⟩
      · have exactly : targets = ({first} : OrderedSet Nat).insert second := by
          apply Std.ExtTreeSet.ext_mem
          intro target
          have asMove := skips .epsilon target
          rw [hasMove_of_row present, entry] at asMove
          rw [OrderedSet.mem_pair]
          simpa using asMove
        rw [exactly]
        by_cases same : first = second
        · subst same
          exact .inl (by simp [Std.ExtTreeSet.size_insert])
        · exact .inr (OrderedSet.size_pair same)
      · intro symbol
        cases symbol with
        | epsilon => exact entry
        | char c =>
            cases other : row[Symbol.char c]? with
            | none => rfl
            | some others =>
                obtain ⟨target, member⟩ := OrderedSet.exists_mem_of_ne_empty
                  (rowClosed.targets_nonempty (.char c) others other)
                have asMove := skips (.char c) target
                rw [hasMove_of_row present, other] at asMove
                exact absurd (asMove.mp member).1 (by simp)

end Rows

theorem Occupies.shaped {nfa : Nfa Nat} {count : Nat} (occupies : nfa.Occupies 0 (count - 1))
    (positive : 0 < count) : nfa.Shaped count where
  mem_states state := by
    rw [occupies.mem_states]
    omega
  start_eq := occupies.start_eq
  accepting_eq := by
    apply Std.ExtTreeSet.ext_mem
    intro state
    rw [occupies.mem_accepting, OrderedSet.mem_singleton]
  not_entered source symbol move := (occupies.within source symbol 0 move).2 rfl
  not_left :=
    occupies.built.closed.getElem?_rows_eq_none fun _ _ =>
      occupies.not_hasMove (.inr (Nat.le_refl _))
  row state below :=
    (occupies.fan state (Nat.zero_le state) (by omega)).exists_row occupies.built.closed

end Nfa

namespace Pattern

theorem placedNodes_pos (pattern : Pattern) : 0 < pattern.placedNodes := by
  induction pattern <;> simp only [placedNodes] <;> omega

theorem occupies_toNfa (pattern : Pattern) :
    pattern.toNfa.Occupies 0 (2 * pattern.placedNodes - 1) := by
  induction pattern with
  | literal c => exact .oneOf (List.cons_ne_nil c [])
  | charClass cls => exact .oneOf (by cases cls <;> decide)
  | union left right ih ihRight =>
      have leftPos := left.placedNodes_pos
      have rightPos := right.placedNodes_pos
      have whole := ih.either ihRight
      rw [← toNfa_union] at whole
      convert whole using 1
      simp only [placedNodes]
      omega
  | concat left right ih ihRight =>
      have leftPos := left.placedNodes_pos
      have rightPos := right.placedNodes_pos
      have whole := ih.followedBy ihRight
      rw [← toNfa_concat] at whole
      convert whole using 1
      simp only [placedNodes]
      omega
  | quantified mark item ih =>
      have itemPos := item.placedNodes_pos
      have whole := ih.quantified mark
      rw [← toNfa_quantified] at whole
      convert whole using 1
      simp only [placedNodes]
      omega

theorem mem_alphabet_toNfa (pattern : Pattern) (c : Char) :
    c ∈ pattern.toNfa.alphabet ↔ pattern.mentions c = true := by
  induction pattern with
  | literal d => simp [toNfa_literal, mentions]
  | charClass cls => simp [toNfa_charClass, mentions, CharClass.mem_chars]
  | union left right ih ihRight =>
      simp [toNfa_union, mentions, ih, ihRight]
  | concat left right ih ihRight =>
      simp [toNfa_concat, mentions, ih, ihRight]
  | quantified mark item ih =>
      simp [toNfa_quantified, mentions, ih]

/-- The automaton of a pattern has two states for every node that needs states, the shape of the
construction, and the characters that the pattern mentions. -/
theorem shaped_toNfa (pattern : Pattern) :
    pattern.toNfa.Shaped (2 * pattern.placedNodes) ∧
      ∀ c, c ∈ pattern.toNfa.alphabet ↔ pattern.mentions c = true := by
  have positive := pattern.placedNodes_pos
  exact ⟨pattern.occupies_toNfa.shaped (by omega), pattern.mem_alphabet_toNfa⟩

end Pattern

end PatternAutomata
