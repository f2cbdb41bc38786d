import PatternAutomata.Nfa.Built
import PatternAutomata.Proofs.Ordered.Images
import PatternAutomata.Proofs.Ordered.Renaming

/-!
# The parts of automata

What the operations do to the characters, the states, the start and the accepting states of an
automaton, beside its moves.  A closed automaton is determined by these parts.
-/

namespace PatternAutomata.Nfa

variable {S T : Type} [Ord S] [Std.TransOrd S] [Ord T] [Std.TransOrd T]

section Unchanged

variable {nfa other : Nfa S} {source target state : S} {symbol : Symbol}

@[simp]
theorem start_singleton : (singleton source).start = source := rfl

@[simp]
theorem start_addState : (nfa.addState state).start = nfa.start := rfl

@[simp]
theorem start_addMove : (nfa.addMove source symbol target).start = nfa.start := rfl

@[simp]
theorem start_markAccepting : (nfa.markAccepting state).start = nfa.start := rfl

omit [Std.TransOrd S] in
@[simp]
theorem start_clearAccepting : nfa.clearAccepting.start = nfa.start := rfl

@[simp]
theorem start_absorb : (nfa.absorb other).start = nfa.start := rfl

@[simp]
theorem alphabet_addState : (nfa.addState state).alphabet = nfa.alphabet := rfl

@[simp]
theorem alphabet_markAccepting : (nfa.markAccepting state).alphabet = nfa.alphabet := rfl

omit [Std.TransOrd S] in
@[simp]
theorem alphabet_clearAccepting : nfa.clearAccepting.alphabet = nfa.alphabet := rfl

@[simp]
theorem alphabet_relabel {f : S → T} : (nfa.relabel f).alphabet = nfa.alphabet := rfl

omit [Std.TransOrd S] in
@[simp]
theorem states_clearAccepting : nfa.clearAccepting.states = nfa.states := rfl

@[simp]
theorem accepting_addState : (nfa.addState state).accepting = nfa.accepting := rfl

@[simp]
theorem accepting_addMove : (nfa.addMove source symbol target).accepting = nfa.accepting := rfl

@[simp]
theorem accepting_absorb : (nfa.absorb other).accepting = nfa.accepting := rfl

end Unchanged

section Members

variable {nfa other : Nfa S} {source target state : S} {symbol : Symbol} {c : Char}

@[simp]
theorem mem_alphabet_singleton : c ∉ (singleton source).alphabet := by
  simp [singleton]

@[simp]
theorem mem_alphabet_absorb :
    c ∈ (nfa.absorb other).alphabet ↔ c ∈ nfa.alphabet ∨ c ∈ other.alphabet :=
  Std.ExtTreeSet.mem_union_iff

@[simp]
theorem mem_states_absorb :
    state ∈ (nfa.absorb other).states ↔ state ∈ nfa.states ∨ state ∈ other.states :=
  Std.ExtTreeSet.mem_union_iff

@[simp]
theorem mem_accepting_singleton : state ∉ (singleton source).accepting := by
  simp [singleton]

@[simp]
theorem mem_accepting_clearAccepting : state ∉ nfa.clearAccepting.accepting := by
  simp [clearAccepting]

@[simp]
theorem mem_alphabet_addMove :
    c ∈ (nfa.addMove source symbol target).alphabet ↔ symbol = .char c ∨ c ∈ nfa.alphabet := by
  cases symbol with
  | char d =>
      apply OrderedSet.mem_insert.trans
      rw [Symbol.char.injEq, eq_comm]
  | epsilon => simp [addMove]

variable [Std.LawfulEqOrd S] [Std.LawfulEqOrd T]

@[simp]
theorem mem_states_singleton : state ∈ (singleton source).states ↔ state = source :=
  OrderedSet.mem_singleton

@[simp]
theorem mem_states_addState :
    state ∈ (nfa.addState target).states ↔ state = target ∨ state ∈ nfa.states :=
  OrderedSet.mem_insert

@[simp]
theorem mem_states_addMove :
    state ∈ (nfa.addMove source symbol target).states ↔
      state = target ∨ state = source ∨ state ∈ nfa.states := by
  simp only [addMove, OrderedSet.mem_insert]

@[simp]
theorem mem_states_markAccepting :
    state ∈ (nfa.markAccepting target).states ↔ state = target ∨ state ∈ nfa.states :=
  OrderedSet.mem_insert

@[simp]
theorem mem_accepting_markAccepting :
    state ∈ (nfa.markAccepting target).accepting ↔ state = target ∨ state ∈ nfa.accepting :=
  OrderedSet.mem_insert

@[simp]
theorem mem_states_relabel {f : S → T} {name : T} :
    name ∈ (nfa.relabel f).states ↔ ∃ state ∈ nfa.states, f state = name :=
  OrderedSet.mem_image

@[simp]
theorem mem_accepting_relabel {f : S → T} {name : T} :
    name ∈ (nfa.relabel f).accepting ↔ ∃ state ∈ nfa.accepting, f state = name :=
  OrderedSet.mem_image

end Members

section Relabel

variable [Std.LawfulEqOrd S] [Std.LawfulEqOrd T] {f : S → T} {nfa : Nfa S}

/-- The names tell apart the members of a collection that holds the sources of all rows and is kept
to by all moves. -/
structure Distinguishes (f : S → T) (nfa : Nfa S) (known : S → Prop) : Prop where
  source_known : ∀ source, source ∈ nfa.rows → known source
  target_known : ∀ source symbol target, nfa.HasMove source symbol target → known target
  injective : ∀ first second, known first → known second → f first = f second → first = second

omit [Std.LawfulEqOrd S] [Std.LawfulEqOrd T] [Ord T] [Std.TransOrd T] in
theorem Distinguishes.of_injective (injective : Function.Injective f) :
    Distinguishes f nfa fun _ => True where
  source_known _ _ := trivial
  target_known _ _ _ _ := trivial
  injective _ _ _ _ same := injective same

omit [Std.LawfulEqOrd S] in
theorem mem_rows_of_hasMove {source target : S} {symbol : Symbol}
    (move : nfa.HasMove source symbol target) : source ∈ nfa.rows := by
  obtain ⟨row, _, present, _, _⟩ := hasMove_iff.mp move
  exact OrderedMap.mem_of_getElem? present

/-- The moves from a name are the renamed moves of the source that prevails. -/
theorem hasMove_relabel {name goal : T} {symbol : Symbol} :
    (nfa.relabel f).HasMove name symbol goal ↔
      ∃ source target, OrderedMap.Prevails f (· ∈ nfa.rows) name source ∧
        nfa.HasMove source symbol target ∧ f target = goal := by
  have row_iff : ∀ {row : Row T}, (nfa.relabel f).rows[name]? = some row ↔
      ∃ source before, OrderedMap.Prevails f (· ∈ nfa.rows) name source ∧
        nfa.rows[source]? = some before ∧ before.relabel f = row := by
    intro row
    apply OrderedMap.getElem?_rename_iff.trans
    simp only [Std.ExtTreeMap.mem_map, Std.ExtTreeMap.getElem?_map, Option.map_eq_some_iff,
      exists_and_left]
  rw [hasMove_iff]
  constructor
  · intro moved
    obtain ⟨row, targets, present, entry, member⟩ := moved
    obtain ⟨source, before, prevails, there, rfl⟩ := row_iff.mp present
    rw [Row.getElem?_relabel] at entry
    obtain ⟨old, among, rfl⟩ := Option.map_eq_some_iff.mp entry
    obtain ⟨target, within, same⟩ := OrderedSet.mem_image.mp member
    exact ⟨source, target, prevails, hasMove_iff.mpr ⟨before, old, there, among, within⟩, same⟩
  · intro moved
    obtain ⟨source, target, prevails, move, rfl⟩ := moved
    obtain ⟨before, targets, there, among, member⟩ := hasMove_iff.mp move
    refine ⟨before.relabel f, OrderedSet.image f targets,
      row_iff.mpr ⟨source, before, prevails, there, rfl⟩, ?_, ?_⟩
    · rw [Row.getElem?_relabel, among]
      rfl
    · exact OrderedSet.mem_image.mpr ⟨target, member, rfl⟩

/-- Renaming the states apart renames the ends of the moves. -/
theorem hasMove_relabel_iff
    {known : S → Prop} (apart : Distinguishes f nfa known) {name goal : T} {symbol : Symbol} :
    (nfa.relabel f).HasMove name symbol goal ↔
      ∃ source target, nfa.HasMove source symbol target ∧ f source = name ∧ f target = goal := by
  rw [hasMove_relabel]
  constructor
  · intro moved
    obtain ⟨source, target, prevails, move, same⟩ := moved
    exact ⟨source, target, move, prevails.named, same⟩
  · intro moved
    obtain ⟨source, target, move, rfl, same⟩ := moved
    refine ⟨source, target, ?_, move, same⟩
    apply OrderedMap.Prevails.of_injective
    · intro first second member other
      exact apart.injective first second (apart.source_known first member)
        (apart.source_known second other)
    · exact mem_rows_of_hasMove move

/-- A move from the name of a known state is the renaming of a move from this state. -/
theorem Distinguishes.exists_of_hasMove
    {known : S → Prop} (apart : Distinguishes f nfa known) {source : S} {name goal : T}
    {symbol : Symbol} (member : known source) (named : f source = name)
    (move : (nfa.relabel f).HasMove name symbol goal) :
    ∃ target, nfa.HasMove source symbol target ∧ known target ∧ f target = goal := by
  obtain ⟨origin, target, inside, same, reached⟩ := (hasMove_relabel_iff apart).mp move
  have originKnown : known origin := apart.source_known origin (mem_rows_of_hasMove inside)
  obtain rfl := apart.injective origin source originKnown member (same.trans named.symm)
  exact ⟨target, inside, apart.target_known _ _ _ inside, reached⟩

/-- Renaming twice is renaming once if the sources are not merged out of order. -/
theorem relabel_relabel {U : Type} [Ord U] [Std.TransOrd U] [Std.LawfulEqOrd U] {g : T → U}
    (inOrder : OrderedMap.MergesInOrder f g (· ∈ nfa.rows)) :
    (nfa.relabel f).relabel g = nfa.relabel (g ∘ f) := by
  have changed : Row.relabel g ∘ Row.relabel f = Row.relabel (g ∘ f) := by
    funext row
    simp only [Row.relabel, Function.comp_apply, Std.ExtTreeMap.map_map, OrderedSet.image_image]
  have rows := OrderedMap.rename_map_rename_map inOrder (Row.relabel f) (Row.relabel g)
  rw [changed] at rows
  simp only [relabel, rows, OrderedSet.image_image, Function.comp_apply]

end Relabel

section Extensionality

variable [Std.LawfulEqOrd S]

omit [Std.TransOrd S] [Std.LawfulEqOrd S] in
private theorem eq_of_getD_eq
    {first second : Option (OrderedSet S)}
    (firstFull : ∀ targets, first = some targets → targets ≠ ∅)
    (secondFull : ∀ targets, second = some targets → targets ≠ ∅)
    (same : first.getD ∅ = second.getD ∅) :
    first = second := by
  cases first with
  | none =>
      cases second with
      | none => rfl
      | some targets => exact absurd same.symm (secondFull targets rfl)
  | some targets =>
      cases second with
      | none => exact absurd same (firstFull targets rfl)
      | some others => exact congrArg some same

omit [Std.TransOrd S] [Std.LawfulEqOrd S] in
/-- Rows without empty sets of targets are equal if every symbol has the same targets in both. -/
theorem Row.eq_of_targets_eq
    {first second : Row S}
    (firstFull : ∀ (symbol : Symbol) (targets : OrderedSet S),
      first[symbol]? = some targets → targets ≠ ∅)
    (secondFull : ∀ (symbol : Symbol) (targets : OrderedSet S),
      second[symbol]? = some targets → targets ≠ ∅)
    (same : ∀ symbol : Symbol, first[symbol]?.getD ∅ = second[symbol]?.getD ∅) :
    first = second :=
  Std.ExtTreeMap.ext_getElem? fun symbol =>
    eq_of_getD_eq (firstFull symbol) (secondFull symbol) (same symbol)

omit [Std.LawfulEqOrd S] in
theorem Closed.source_mem_of_mem_rows
    {nfa : Nfa S} (closed : nfa.Closed) {source : S} (member : source ∈ nfa.rows) :
    source ∈ nfa.states := by
  obtain ⟨row, present⟩ := OrderedMap.mem_iff_exists.mp member
  exact closed.source_mem source row present

omit [Std.LawfulEqOrd S] in
theorem Closed.ne_empty_of_targets?_eq_some
    {nfa : Nfa S} (closed : nfa.Closed) {source : S} {symbol : Symbol} {targets : OrderedSet S}
    (found : nfa.targets? source symbol = some targets) :
    targets ≠ ∅ := by
  obtain ⟨row, present, entry⟩ := Option.bind_eq_some_iff.mp found
  exact (closed.row_closed source row present).targets_nonempty symbol targets entry

theorem Closed.rows_eq
    {first second : Nfa S} (firstClosed : first.Closed) (secondClosed : second.Closed)
    (same : ∀ source symbol, first.targets source symbol = second.targets source symbol) :
    first.rows = second.rows := by
  apply OrderedMap.eq_of_getElem?_getElem?
  · intro source row present
    exact (firstClosed.row_closed source row present).nonempty
  · intro source row present
    exact (secondClosed.row_closed source row present).nonempty
  · intro source symbol
    have found := same source symbol
    exact eq_of_getD_eq (fun _ => firstClosed.ne_empty_of_targets?_eq_some)
      (fun _ => secondClosed.ne_empty_of_targets?_eq_some) found

/-- Closed automata with the same parts are equal. -/
theorem Closed.ext
    {first second : Nfa S} (firstClosed : first.Closed) (secondClosed : second.Closed)
    (alphabet : ∀ c, c ∈ first.alphabet ↔ c ∈ second.alphabet)
    (states : ∀ state, state ∈ first.states ↔ state ∈ second.states)
    (start : first.start = second.start)
    (moves : ∀ source symbol target,
      first.HasMove source symbol target ↔ second.HasMove source symbol target)
    (accepting : ∀ state, state ∈ first.accepting ↔ state ∈ second.accepting) :
    first = second := by
  have rows := firstClosed.rows_eq secondClosed fun source symbol =>
    Std.ExtTreeSet.ext_mem fun target => moves source symbol target
  cases first
  cases second
  congr 1
  · exact Std.ExtTreeSet.ext_mem alphabet
  · exact Std.ExtTreeSet.ext_mem states
  · exact Std.ExtTreeSet.ext_mem accepting

end Extensionality

end PatternAutomata.Nfa
