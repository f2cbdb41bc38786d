import PatternAutomata.Proofs.Nfa.Numbered

/-!
# Joining automata

What the rules of the construction make of the parts of the automata that they join.  The automata
of the parts of a rule are shifted copies, each above the one before it.
-/

namespace PatternAutomata.Nfa

/-- The second of two automata, above the first. -/
def above (first second : Nfa Nat) : Nfa Nat := second.shift (first.greatest + 1)

theorem lt_of_mem_above
    {first second : Nfa Nat} {state other : Nat}
    (member : state ∈ first.states) (memberAbove : other ∈ (first.above second).states) :
    state < other := by
  have bound := le_greatest member
  obtain ⟨origin, _, rfl⟩ := mem_states_shift.mp memberAbove
  omega

section OneOf

variable {characters : List Char}

@[simp]
theorem start_oneOf : (oneOf characters).start = 0 := by
  apply foldl_eq start
  intro before c
  rfl

@[simp]
theorem accepting_oneOf {state : Nat} : state ∈ (oneOf characters).accepting ↔ state = 1 := by
  have accepting : (characters.foldl (fun nfa c => nfa.addMove 0 (.char c) 1)
      (singleton 0)).accepting = ∅ := by
    apply foldl_eq accepting
    intro before c
    rfl
  simp [oneOf, accepting]

@[simp]
theorem hasMove_oneOf {source target : Nat} {symbol : Symbol} :
    (oneOf characters).HasMove source symbol target ↔
      source = 0 ∧ target = 1 ∧ ∃ c ∈ characters, symbol = .char c := by
  have each : ∀ (before : Nfa Nat) (c : Char),
      (before.addMove 0 (.char c) 1).HasMove source symbol target ↔
        before.HasMove source symbol target ∨ (source = 0 ∧ symbol = .char c ∧ target = 1) := by
    intro before c
    rw [hasMove_addMove, or_comm]
  have fold := foldl_iff (·.HasMove source symbol target) each characters (singleton 0)
  simp only [oneOf, hasMove_markAccepting, fold, hasMove_singleton, false_or]
  grind

theorem mem_states_oneOf {state : Nat} (nonempty : characters ≠ []) :
    state ∈ (oneOf characters).states ↔ state = 0 ∨ state = 1 := by
  have each : ∀ (before : Nfa Nat) (c : Char),
      state ∈ (before.addMove 0 (.char c) 1).states ↔
        state ∈ before.states ∨ (state = 0 ∨ state = 1) := by
    intro before c
    rw [mem_states_addMove]
    grind
  have fold := foldl_iff (state ∈ ·.states) each characters (singleton 0)
  have some := List.exists_mem_of_ne_nil characters nonempty
  simp only [oneOf, mem_states_markAccepting, fold, mem_states_singleton]
  grind

@[simp]
theorem mem_alphabet_oneOf {c : Char} : c ∈ (oneOf characters).alphabet ↔ c ∈ characters := by
  have each : ∀ (before : Nfa Nat) (d : Char),
      c ∈ (before.addMove 0 (.char d) 1).alphabet ↔ c ∈ before.alphabet ∨ c = d := by
    intro before d
    rw [mem_alphabet_addMove, Symbol.char.injEq, or_comm, eq_comm]
  have fold := foldl_iff (c ∈ ·.alphabet) each characters (singleton 0)
  simp [oneOf, fold]

theorem built_oneOf : (oneOf characters).Built :=
  .markAccepting 1 (List.foldlRecOn characters _ (.singleton 0) fun _ before c _ =>
    before.addMove 0 (.char c) 1)

end OneOf

section TwoStates

variable {characters : List Char}

theorem getElem?_rowTo_eq_some_iff {target : Nat} {symbol : Symbol} {targets : OrderedSet Nat} :
    (rowTo target characters)[symbol]? = some targets ↔
      targets = {target} ∧ ∃ c ∈ characters, symbol = .char c := by
  induction characters with
  | nil => simp [rowTo]
  | cons d characters ih =>
      have more : rowTo target (d :: characters) =
          (rowTo target characters).insert (.char d) {target} := rfl
      rw [more, Std.ExtTreeMap.getElem?_insert]
      by_cases same : compare (Symbol.char d) symbol = .eq
      · rw [if_pos same, Option.some_inj, eq_comm]
        exact (and_iff_left ⟨d, List.mem_cons_self, (Std.LawfulEqOrd.eq_of_compare same).symm⟩).symm
      · have different : symbol ≠ .char d := fun equal => same (equal ▸ Std.ReflOrd.compare_self)
        rw [if_neg same, ih]
        simp [different]

theorem rows_twoStates_eq_some_iff {source : Nat} {row : Row Nat} :
    (twoStates characters).rows[source]? = some row ↔ source = 0 ∧ row = rowTo 1 characters := by
  have only : (twoStates characters).rows = (∅ : OrderedMap Nat (Row Nat)).insert 0
      (rowTo 1 characters) := Std.ExtTreeMap.ofList_singleton
  rw [only, Std.ExtTreeMap.getElem?_insert]
  by_cases zero : source = 0
  · subst zero
    simp [eq_comm]
  · have different : compare 0 source ≠ .eq := fun same =>
      zero (Std.LawfulEqOrd.eq_of_compare same).symm
    simp [zero, different]

theorem hasMove_twoStates {source target : Nat} {symbol : Symbol} :
    (twoStates characters).HasMove source symbol target ↔
      source = 0 ∧ target = 1 ∧ ∃ c ∈ characters, symbol = .char c := by
  simp only [hasMove_iff, rows_twoStates_eq_some_iff]
  constructor
  · rintro ⟨row, targets, ⟨rfl, rfl⟩, found, member⟩
    obtain ⟨rfl, read⟩ := getElem?_rowTo_eq_some_iff.mp found
    exact ⟨rfl, OrderedSet.mem_singleton.mp member, read⟩
  · rintro ⟨rfl, rfl, read⟩
    exact ⟨_, _, ⟨rfl, rfl⟩, getElem?_rowTo_eq_some_iff.mpr ⟨rfl, read⟩,
      OrderedSet.mem_singleton.mpr rfl⟩

theorem mem_alphabet_twoStates {c : Char} :
    c ∈ (twoStates characters).alphabet ↔ c ∈ characters := by
  apply Std.ExtTreeSet.mem_ofList.trans
  exact List.contains_iff_mem

theorem mem_states_twoStates {state : Nat} :
    state ∈ (twoStates characters).states ↔ state = 0 ∨ state = 1 :=
  OrderedSet.mem_pair.trans or_comm

theorem mem_accepting_twoStates {state : Nat} :
    state ∈ (twoStates characters).accepting ↔ state = 1 :=
  OrderedSet.mem_singleton

theorem closed_twoStates (nonempty : characters ≠ []) : (twoStates characters).Closed where
  start_mem := mem_states_twoStates.mpr (.inl rfl)
  accepting_mem state member := mem_states_twoStates.mpr (.inr (mem_accepting_twoStates.mp member))
  source_mem source row present :=
    mem_states_twoStates.mpr (.inl (rows_twoStates_eq_some_iff.mp present).1)
  row_closed source row present := by
    obtain ⟨_, rfl⟩ := rows_twoStates_eq_some_iff.mp present
    have one : 1 ∈ (twoStates characters).states := mem_states_twoStates.mpr (.inr rfl)
    constructor
    · intro empty
      obtain ⟨c, member⟩ := List.exists_mem_of_ne_nil characters nonempty
      have found : (rowTo 1 characters)[Symbol.char c]? = some {1} :=
        getElem?_rowTo_eq_some_iff.mpr ⟨rfl, c, member, rfl⟩
      simp [empty] at found
    · intro symbol targets found
      obtain ⟨rfl, _⟩ := getElem?_rowTo_eq_some_iff.mp found
      exact Std.ExtTreeSet.insert_ne_empty
    · intro symbol targets target found member
      obtain ⟨rfl, _⟩ := getElem?_rowTo_eq_some_iff.mp found
      exact OrderedSet.mem_singleton.mp member ▸ one
    · intro c targets found
      obtain ⟨_, d, member, same⟩ := getElem?_rowTo_eq_some_iff.mp found
      cases same
      exact mem_alphabet_twoStates.mpr member

/-- Adding the moves one by one leads to the two states as they are written down. -/
theorem oneOf_eq_twoStates (nonempty : characters ≠ []) :
    oneOf characters = twoStates characters := by
  apply Closed.ext built_oneOf.closed (closed_twoStates nonempty)
  · intro c
    rw [mem_alphabet_oneOf, mem_alphabet_twoStates]
  · intro state
    rw [mem_states_oneOf nonempty, mem_states_twoStates]
  · exact start_oneOf
  · intro source symbol target
    rw [hasMove_oneOf, hasMove_twoStates]
  · intro state
    rw [accepting_oneOf, mem_accepting_twoStates]

end TwoStates

section Assemble

variable {nfa : Nfa Nat} {origin : Nat} {parts : List (Nfa Nat)} {links : List (Nat × Nat)}
  {finals : OrderedSet Nat}

@[simp]
theorem start_absorbAll : (nfa.absorbAll parts).start = nfa.start := by
  apply foldl_eq start
  intro before part
  rfl

@[simp]
theorem accepting_absorbAll : (nfa.absorbAll parts).accepting = nfa.accepting := by
  apply foldl_eq accepting
  intro before part
  rfl

theorem mem_alphabet_absorbAll {c : Char} :
    c ∈ (nfa.absorbAll parts).alphabet ↔ c ∈ nfa.alphabet ∨ ∃ part ∈ parts, c ∈ part.alphabet := by
  have each : ∀ before part : Nfa Nat,
      c ∈ (before.absorb part).alphabet ↔ c ∈ before.alphabet ∨ c ∈ part.alphabet := by
    intro before part
    exact mem_alphabet_absorb
  exact foldl_iff (c ∈ ·.alphabet) each parts nfa

theorem mem_states_absorbAll {state : Nat} :
    state ∈ (nfa.absorbAll parts).states ↔
      state ∈ nfa.states ∨ ∃ part ∈ parts, state ∈ part.states := by
  have each : ∀ before part : Nfa Nat,
      state ∈ (before.absorb part).states ↔ state ∈ before.states ∨ state ∈ part.states := by
    intro before part
    exact mem_states_absorb
  exact foldl_iff (state ∈ ·.states) each parts nfa

theorem hasMove_absorbAll {source target : Nat} {symbol : Symbol} :
    (nfa.absorbAll parts).HasMove source symbol target ↔
      nfa.HasMove source symbol target ∨ ∃ part ∈ parts, part.HasMove source symbol target := by
  have each : ∀ before part : Nfa Nat,
      (before.absorb part).HasMove source symbol target ↔
        before.HasMove source symbol target ∨ part.HasMove source symbol target := by
    intro before part
    exact hasMove_absorb
  exact foldl_iff (·.HasMove source symbol target) each parts nfa

theorem Built.absorbAll (built : nfa.Built) (each : ∀ part ∈ parts, part.Built) :
    (nfa.absorbAll parts).Built :=
  List.foldlRecOn parts _ built fun _ before part member => before.absorb (each part member)

@[simp]
theorem start_addLinks : (nfa.addLinks links).start = nfa.start := by
  apply foldl_eq start
  intro before link
  rfl

@[simp]
theorem alphabet_addLinks : (nfa.addLinks links).alphabet = nfa.alphabet := by
  apply foldl_eq alphabet
  intro before link
  rfl

@[simp]
theorem accepting_addLinks : (nfa.addLinks links).accepting = nfa.accepting := by
  apply foldl_eq accepting
  intro before link
  rfl

theorem mem_states_addLinks {state : Nat} :
    state ∈ (nfa.addLinks links).states ↔
      state ∈ nfa.states ∨ ∃ link ∈ links, state = link.2 ∨ state = link.1 := by
  have each : ∀ (before : Nfa Nat) (link : Nat × Nat),
      state ∈ (before.addMove link.1 .epsilon link.2).states ↔
        state ∈ before.states ∨ (state = link.2 ∨ state = link.1) := by
    intro before link
    rw [mem_states_addMove, ← or_assoc, or_comm]
  exact foldl_iff (state ∈ ·.states) each links nfa

theorem hasMove_addLinks {source target : Nat} {symbol : Symbol} :
    (nfa.addLinks links).HasMove source symbol target ↔
      nfa.HasMove source symbol target ∨ symbol = .epsilon ∧ (source, target) ∈ links := by
  have each : ∀ (before : Nfa Nat) (link : Nat × Nat),
      (before.addMove link.1 .epsilon link.2).HasMove source symbol target ↔
        before.HasMove source symbol target ∨
          (source = link.1 ∧ symbol = .epsilon ∧ target = link.2) := by
    intro before link
    rw [hasMove_addMove, or_comm]
  apply (foldl_iff (·.HasMove source symbol target) each links nfa).trans
  apply or_congr_right
  constructor
  · intro linked
    obtain ⟨link, member, rfl, epsilon, rfl⟩ := linked
    exact ⟨epsilon, member⟩
  · intro linked
    exact ⟨(source, target), linked.2, rfl, linked.1, rfl⟩

theorem Built.addLinks (built : nfa.Built) : (nfa.addLinks links).Built :=
  List.foldlRecOn links _ built fun _ before link _ => before.addMove link.1 .epsilon link.2

@[simp]
theorem start_assemble : (assemble origin parts links finals).start = origin := by
  simp [assemble]

@[simp]
theorem mem_accepting_assemble {state : Nat} :
    state ∈ (assemble origin parts links finals).accepting ↔ state ∈ finals := by
  simp [assemble]

@[simp]
theorem mem_alphabet_assemble {c : Char} :
    c ∈ (assemble origin parts links finals).alphabet ↔ ∃ part ∈ parts, c ∈ part.alphabet := by
  simp [assemble, mem_alphabet_absorbAll]

/-- The states of automata that are assembled, if no link leads elsewhere. -/
theorem mem_states_assemble {state : Nat}
    (linked : ∀ source target, (source, target) ∈ links →
      (source = origin ∨ (∃ part ∈ parts, source ∈ part.states) ∨ source ∈ finals) ∧
        (target = origin ∨ (∃ part ∈ parts, target ∈ part.states) ∨ target ∈ finals)) :
    state ∈ (assemble origin parts links finals).states ↔
      state = origin ∨ (∃ part ∈ parts, state ∈ part.states) ∨ state ∈ finals := by
  rw [assemble, mem_states_markAllAccepting, mem_states_addLinks, mem_states_absorbAll,
    mem_states_singleton]
  constructor
  · intro member
    rcases member with ((start | inside) | ⟨⟨source, target⟩, link, rfl | rfl⟩) | final
    · exact .inl start
    · exact .inr (.inl inside)
    · exact (linked source _ link).2
    · exact (linked _ target link).1
    · exact .inr (.inr final)
  · intro member
    rcases member with start | inside | final
    · exact .inl (.inl (.inl start))
    · exact .inl (.inl (.inr inside))
    · exact .inr final

theorem hasMove_assemble {source target : Nat} {symbol : Symbol} :
    (assemble origin parts links finals).HasMove source symbol target ↔
      (∃ part ∈ parts, part.HasMove source symbol target) ∨
        symbol = .epsilon ∧ (source, target) ∈ links := by
  rw [assemble, hasMove_markAllAccepting, hasMove_addLinks, hasMove_absorbAll]
  simp only [hasMove_singleton, false_or]

theorem built_assemble (built : ∀ part ∈ parts, part.Built) :
    (assemble origin parts links finals).Built :=
  ((Built.singleton origin).absorbAll built).addLinks.markAllAccepting

@[simp]
theorem mem_exitsTo {source target goal : Nat} :
    (source, goal) ∈ nfa.exitsTo target ↔ source ∈ nfa.accepting ∧ goal = target := by
  rw [exitsTo, List.mem_map]
  simp only [Std.ExtTreeSet.mem_toList, Prod.mk.injEq]
  constructor
  · intro exit
    obtain ⟨_, accepting, rfl, rfl⟩ := exit
    exact ⟨accepting, rfl⟩
  · intro exit
    exact ⟨source, exit.1, rfl, exit.2.symm⟩

end Assemble

/-- The first automaton continued by the second, which keeps the states that it has. -/
def continuedBy (first second : Nfa Nat) : Nfa Nat :=
  ((first.clearAccepting.addEpsilons first.accepting second.start).absorb second).markAllAccepting
    second.accepting

section ContinuedBy

variable {first second : Nfa Nat}

@[simp]
theorem start_continuedBy : (first.continuedBy second).start = first.start := by
  simp [continuedBy]

@[simp]
theorem mem_alphabet_continuedBy {c : Char} :
    c ∈ (first.continuedBy second).alphabet ↔ c ∈ first.alphabet ∨ c ∈ second.alphabet := by
  simp [continuedBy]

@[simp]
theorem mem_accepting_continuedBy {state : Nat} :
    state ∈ (first.continuedBy second).accepting ↔ state ∈ second.accepting := by
  simp [continuedBy]

theorem hasMove_continuedBy {source target : Nat} {symbol : Symbol} :
    (first.continuedBy second).HasMove source symbol target ↔
      first.HasMove source symbol target ∨ second.HasMove source symbol target ∨
        source ∈ first.accepting ∧ symbol = .epsilon ∧ target = second.start := by
  simp only [continuedBy, hasMove_markAllAccepting, hasMove_absorb, hasMove_addEpsilons,
    hasMove_clearAccepting]
  grind

theorem mem_states_continuedBy {state : Nat} (closed : first.Closed) (secondClosed : second.Closed) :
    state ∈ (first.continuedBy second).states ↔ state ∈ first.states ∨ state ∈ second.states := by
  simp only [continuedBy, mem_states_markAllAccepting, mem_states_absorb, mem_states_addEpsilons,
    states_clearAccepting]
  constructor
  · intro member
    rcases member with ((inFirst | ⟨source, among, rfl | rfl⟩) | inSecond) | accepting
    · exact .inl inFirst
    · exact .inr secondClosed.start_mem
    · exact .inl (closed.accepting_mem state among)
    · exact .inr inSecond
    · exact .inr (secondClosed.accepting_mem state accepting)
  · intro member
    rcases member with inFirst | inSecond
    · exact .inl (.inl (.inl inFirst))
    · exact .inl (.inr inSecond)

theorem Built.continuedBy (built : first.Built) (secondBuilt : second.Built) :
    (first.continuedBy second).Built :=
  .markAllAccepting (.absorb (.addEpsilons built.clearAccepting) secondBuilt)

end ContinuedBy

section FollowedBy

variable {first second : Nfa Nat}

@[simp]
theorem start_followedBy : (first.followedBy second).start = first.start := start_continuedBy

@[simp]
theorem mem_accepting_followedBy {state : Nat} :
    state ∈ (first.followedBy second).accepting ↔ state ∈ (first.above second).accepting :=
  mem_accepting_continuedBy

theorem hasMove_followedBy {source target : Nat} {symbol : Symbol} :
    (first.followedBy second).HasMove source symbol target ↔
      first.HasMove source symbol target ∨ (first.above second).HasMove source symbol target ∨
        source ∈ first.accepting ∧ symbol = .epsilon ∧ target = (first.above second).start :=
  hasMove_continuedBy

theorem Built.followedBy (built : first.Built) (secondBuilt : second.Built) :
    (first.followedBy second).Built :=
  built.continuedBy secondBuilt.shift

@[simp]
theorem mem_alphabet_followedBy {c : Char} :
    c ∈ (first.followedBy second).alphabet ↔ c ∈ first.alphabet ∨ c ∈ second.alphabet :=
  mem_alphabet_continuedBy

theorem mem_states_followedBy {state : Nat} (built : first.Built) (secondBuilt : second.Built) :
    state ∈ (first.followedBy second).states ↔
      state ∈ first.states ∨ state ∈ (first.above second).states :=
  mem_states_continuedBy built.closed secondBuilt.shift.closed

theorem mem_states_sequence {state : Nat} (built : first.Built) (secondBuilt : second.Built) :
    state ∈ (first.sequence second).states ↔
      state ∈ first.states ∨ state ∈ (first.above second).states := by
  have closed : first.Closed := built.closed
  have closedAbove : (first.above second).Closed := secondBuilt.shift.closed
  have parts : ∀ {state : Nat},
      (∃ part ∈ [first, first.above second], state ∈ part.states) ↔
        state ∈ first.states ∨ state ∈ (first.above second).states := by
    simp
  have linked : ∀ source target,
      (source, target) ∈ first.exitsTo (first.above second).start →
        source ∈ first.states ∧ target ∈ (first.above second).states := by
    intro source target link
    obtain ⟨accepting, rfl⟩ := mem_exitsTo.mp link
    exact ⟨closed.accepting_mem source accepting, closedAbove.start_mem⟩
  apply (mem_states_assemble fun source target link =>
    ⟨.inr (.inl (parts.mpr (.inl (linked source target link).1))),
      .inr (.inl (parts.mpr (.inr (linked source target link).2)))⟩).trans
  constructor
  · intro member
    rcases member with rfl | inside | accepting
    · exact .inl closed.start_mem
    · exact parts.mp inside
    · exact .inr (closedAbove.accepting_mem state accepting)
  · intro member
    exact .inr (.inl (parts.mpr member))

/-- Adding the second automaton behind the first is the rule for concatenations. -/
theorem Built.followedBy_eq_sequence (built : first.Built) (secondBuilt : second.Built) :
    first.followedBy second = first.sequence second := by
  have sequenceBuilt : (first.sequence second).Built := by
    apply built_assemble
    simp [built, secondBuilt.shift]
  apply Closed.ext (built.followedBy secondBuilt).closed sequenceBuilt.closed
  · intro c
    simp [sequence]
  · intro state
    rw [mem_states_followedBy built secondBuilt, mem_states_sequence built secondBuilt]
  · simp [sequence]
  · intro source symbol target
    rw [hasMove_followedBy, sequence, hasMove_assemble, mem_exitsTo]
    simp only [List.mem_cons, List.not_mem_nil, or_false, exists_eq_or_imp, exists_eq_left, above]
    grind
  · intro state
    rw [mem_accepting_followedBy, sequence, mem_accepting_assemble, above]

end FollowedBy

section Either

variable {left right : Nfa Nat}

def finalOfEither (left right : Nfa Nat) : Nat :=
  ((left.shift 1).above right).greatest + 1

theorem either_eq_assemble :
    left.either right = assemble 0 [left.shift 1, (left.shift 1).above right]
      ((0, (left.shift 1).start) :: (0, ((left.shift 1).above right).start) ::
        ((left.shift 1).exitsTo (finalOfEither left right) ++
          ((left.shift 1).above right).exitsTo (finalOfEither left right)))
      {finalOfEither left right} := rfl

@[simp]
theorem start_either : (left.either right).start = 0 := start_assemble

@[simp]
theorem mem_accepting_either {state : Nat} :
    state ∈ (left.either right).accepting ↔ state = finalOfEither left right :=
  mem_accepting_assemble.trans OrderedSet.mem_singleton

@[simp]
theorem mem_alphabet_either {c : Char} :
    c ∈ (left.either right).alphabet ↔ c ∈ left.alphabet ∨ c ∈ right.alphabet := by
  simp [either]

theorem hasMove_either {source target : Nat} {symbol : Symbol} :
    (left.either right).HasMove source symbol target ↔
      (left.shift 1).HasMove source symbol target ∨
        ((left.shift 1).above right).HasMove source symbol target ∨
          symbol = .epsilon ∧
            (source = 0 ∧
                (target = (left.shift 1).start ∨ target = ((left.shift 1).above right).start) ∨
              (source ∈ (left.shift 1).accepting ∨
                  source ∈ ((left.shift 1).above right).accepting) ∧
                target = finalOfEither left right) := by
  rw [either_eq_assemble, hasMove_assemble]
  simp only [List.mem_cons, List.mem_append, List.not_mem_nil, or_false, exists_eq_or_imp,
    exists_eq_left, mem_exitsTo, Prod.mk.injEq]
  grind

theorem Built.either (built : left.Built) (rightBuilt : right.Built) :
    (left.either right).Built := by
  apply built_assemble
  simp [built.shift, rightBuilt.shift]

theorem mem_states_either {state : Nat} (built : left.Built) (rightBuilt : right.Built) :
    state ∈ (left.either right).states ↔
      state = 0 ∨ state ∈ (left.shift 1).states ∨ state ∈ ((left.shift 1).above right).states ∨
        state = finalOfEither left right := by
  have closed : (left.shift 1).Closed := built.shift.closed
  have closedAbove : ((left.shift 1).above right).Closed := rightBuilt.shift.closed
  have known : ∀ state : Nat,
      (state = 0 ∨ (∃ part ∈ [left.shift 1, (left.shift 1).above right], state ∈ part.states) ∨
          state ∈ ({finalOfEither left right} : OrderedSet Nat)) ↔
        state = 0 ∨ state ∈ (left.shift 1).states ∨ state ∈ ((left.shift 1).above right).states ∨
          state = finalOfEither left right := by
    intro state
    simp only [List.mem_cons, List.not_mem_nil, or_false, exists_eq_or_imp, exists_eq_left,
      OrderedSet.mem_singleton, or_assoc]
  rw [either_eq_assemble]
  refine (mem_states_assemble ?_).trans (known state)
  intro source target link
  rw [known, known]
  simp only [List.mem_cons, List.mem_append, mem_exitsTo, Prod.mk.injEq] at link
  rcases link with ⟨rfl, rfl⟩ | ⟨rfl, rfl⟩ | ⟨accepting, rfl⟩ | ⟨accepting, rfl⟩
  · exact ⟨.inl rfl, .inr (.inl closed.start_mem)⟩
  · exact ⟨.inl rfl, .inr (.inr (.inl closedAbove.start_mem))⟩
  · exact ⟨.inr (.inl (closed.accepting_mem source accepting)), .inr (.inr (.inr rfl))⟩
  · exact ⟨.inr (.inr (.inl (closedAbove.accepting_mem source accepting))),
      .inr (.inr (.inr rfl))⟩

end Either

section Quantified

variable {nfa : Nfa Nat} {mark : Quantifier}

@[simp]
theorem start_quantified : (nfa.quantified mark).start = 0 := by
  simp only [quantified]
  split <;> split <;> simp

@[simp]
theorem mem_accepting_quantified {state : Nat} :
    state ∈ (nfa.quantified mark).accepting ↔ state = (nfa.shift 1).greatest + 1 := by
  simp only [quantified]
  split <;> split <;> simp

theorem hasMove_quantified {source target : Nat} {symbol : Symbol} :
    (nfa.quantified mark).HasMove source symbol target ↔
      (nfa.shift 1).HasMove source symbol target ∨
        symbol = .epsilon ∧
          (source = 0 ∧ (target = (nfa.shift 1).start ∨
              mark.allowsNone = true ∧ target = (nfa.shift 1).greatest + 1) ∨
            source ∈ (nfa.shift 1).accepting ∧ (target = (nfa.shift 1).greatest + 1 ∨
              mark.allowsMany = true ∧ target = (nfa.shift 1).start)) := by
  cases mark with
  | star =>
      simp only [quantified, Quantifier.allowsNone, Quantifier.allowsMany, if_true,
        hasMove_markAccepting, hasMove_absorb, hasMove_addEpsilons, hasMove_addMove,
        hasMove_singleton]
      grind
  | optional =>
      simp only [quantified, Quantifier.allowsNone, Quantifier.allowsMany,
        Bool.false_eq_true, if_true, if_false, hasMove_markAccepting, hasMove_absorb,
        hasMove_addEpsilons, hasMove_addMove, hasMove_singleton]
      grind
  | plus =>
      simp only [quantified, Quantifier.allowsNone, Quantifier.allowsMany,
        Bool.false_eq_true, if_true, if_false, hasMove_markAccepting, hasMove_absorb,
        hasMove_addEpsilons, hasMove_addMove, hasMove_singleton]
      grind

theorem Built.quantified (built : nfa.Built) : (nfa.quantified mark).Built := by
  have entered : (((Nfa.singleton 0).absorb (nfa.shift 1)).addMove 0 .epsilon
      (nfa.shift 1).start).Built :=
    .addMove _ _ _ (.absorb (.singleton 0) built.shift)
  have skipped := entered.addMove 0 .epsilon ((Nfa.shift 1 nfa).greatest + 1)
  cases mark with
  | star => exact .markAccepting _ (.addEpsilons (.addEpsilons skipped))
  | optional => exact .markAccepting _ (.addEpsilons skipped)
  | plus => exact .markAccepting _ (.addEpsilons (.addEpsilons entered))

@[simp]
theorem mem_alphabet_quantified {c : Char} :
    c ∈ (nfa.quantified mark).alphabet ↔ c ∈ nfa.alphabet := by
  simp only [quantified]
  split <;> split <;> simp

theorem mem_states_quantified {state : Nat} (built : nfa.Built) :
    state ∈ (nfa.quantified mark).states ↔
      state = 0 ∨ state ∈ (nfa.shift 1).states ∨ state = (nfa.shift 1).greatest + 1 := by
  have closed : (nfa.shift 1).Closed := built.shift.closed
  have start := closed.start_mem
  have accepting := closed.accepting_mem
  cases mark with
  | star =>
      simp only [quantified, Quantifier.allowsNone, Quantifier.allowsMany, if_true,
        mem_states_markAccepting, mem_states_addEpsilons, mem_states_addMove, mem_states_absorb,
        mem_states_singleton]
      grind
  | optional =>
      simp only [quantified, Quantifier.allowsNone, Quantifier.allowsMany, Bool.false_eq_true,
        if_true, if_false, mem_states_markAccepting, mem_states_addEpsilons, mem_states_addMove,
        mem_states_absorb, mem_states_singleton]
      grind
  | plus =>
      simp only [quantified, Quantifier.allowsNone, Quantifier.allowsMany, Bool.false_eq_true,
        if_true, if_false, mem_states_markAccepting, mem_states_addEpsilons, mem_states_addMove,
        mem_states_absorb, mem_states_singleton]
      grind

theorem repeated_eq_assemble :
    nfa.repeated mark = assemble 0 [nfa.shift 1]
      ((0, (nfa.shift 1).start) ::
        ((if mark.allowsNone then [(0, (nfa.shift 1).greatest + 1)] else []) ++
          (nfa.shift 1).exitsTo ((nfa.shift 1).greatest + 1) ++
            (if mark.allowsMany then (nfa.shift 1).exitsTo (nfa.shift 1).start else [])))
      {(nfa.shift 1).greatest + 1} := rfl

theorem mem_links_repeated {source target : Nat} :
    (source, target) ∈ (0, (nfa.shift 1).start) ::
        ((if mark.allowsNone then [(0, (nfa.shift 1).greatest + 1)] else []) ++
          (nfa.shift 1).exitsTo ((nfa.shift 1).greatest + 1) ++
            (if mark.allowsMany then (nfa.shift 1).exitsTo (nfa.shift 1).start else [])) ↔
      source = 0 ∧ (target = (nfa.shift 1).start ∨
          mark.allowsNone = true ∧ target = (nfa.shift 1).greatest + 1) ∨
        source ∈ (nfa.shift 1).accepting ∧ (target = (nfa.shift 1).greatest + 1 ∨
          mark.allowsMany = true ∧ target = (nfa.shift 1).start) := by
  cases mark <;> simp [Quantifier.allowsNone, Quantifier.allowsMany] <;> grind

/-- Adding the moves of a repetition around an automaton is the rule for quantifiers. -/
theorem Built.quantified_eq_repeated (built : nfa.Built) :
    nfa.quantified mark = nfa.repeated mark := by
  have closed : (nfa.shift 1).Closed := built.shift.closed
  have repeatedBuilt : (nfa.repeated mark).Built := by
    apply built_assemble
    simp [built.shift]
  apply Closed.ext built.quantified.closed repeatedBuilt.closed
  · intro c
    simp [repeated]
  · intro state
    have known : ∀ state : Nat,
        (state = 0 ∨ (∃ part ∈ [nfa.shift 1], state ∈ part.states) ∨
            state ∈ ({(nfa.shift 1).greatest + 1} : OrderedSet Nat)) ↔
          state = 0 ∨ state ∈ (nfa.shift 1).states ∨ state = (nfa.shift 1).greatest + 1 := by
      intro state
      simp only [List.mem_cons, List.not_mem_nil, or_false, exists_eq_left,
        OrderedSet.mem_singleton]
    rw [mem_states_quantified built, repeated_eq_assemble]
    refine ((mem_states_assemble ?_).trans (known state)).symm
    intro source target link
    rw [known, known]
    have start := closed.start_mem
    have accepting := closed.accepting_mem
    have cases := mem_links_repeated.mp link
    grind
  · simp [repeated]
  · intro source symbol target
    rw [hasMove_quantified, repeated_eq_assemble, hasMove_assemble, mem_links_repeated]
    simp only [List.mem_singleton, exists_eq_left]
  · intro state
    rw [mem_accepting_quantified, repeated_eq_assemble, mem_accepting_assemble,
      OrderedSet.mem_singleton]

end Quantified

end PatternAutomata.Nfa
