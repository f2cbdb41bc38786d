import PatternAutomata.Nfa.Moves

/-!
# Automata that are built

The automata that arise from single states by the operations, over whatever ordered types of
states.  All of them are closed: what they mention belongs to them, and nothing is mentioned
emptily.
-/

namespace PatternAutomata.Nfa

/-- The automaton arises from automata of a single state by the operations. -/
inductive Built : {S : Type} → [Ord S] → [Std.TransOrd S] → Nfa S → Prop where
  | singleton {S : Type} [Ord S] [Std.TransOrd S] [Std.LawfulEqOrd S] (start : S) :
      Built (Nfa.singleton start)
  | addState {S : Type} [Ord S] [Std.TransOrd S] [Std.LawfulEqOrd S] {nfa : Nfa S} (state : S) :
      Built nfa → Built (nfa.addState state)
  | addMove {S : Type} [Ord S] [Std.TransOrd S] [Std.LawfulEqOrd S] {nfa : Nfa S} (source : S)
      (symbol : Symbol) (target : S) : Built nfa → Built (nfa.addMove source symbol target)
  | markAccepting {S : Type} [Ord S] [Std.TransOrd S] [Std.LawfulEqOrd S] {nfa : Nfa S}
      (state : S) : Built nfa → Built (nfa.markAccepting state)
  | clearAccepting {S : Type} [Ord S] [Std.TransOrd S] [Std.LawfulEqOrd S] {nfa : Nfa S} :
      Built nfa → Built nfa.clearAccepting
  | absorb {S : Type} [Ord S] [Std.TransOrd S] [Std.LawfulEqOrd S] {nfa other : Nfa S} :
      Built nfa → Built other → Built (nfa.absorb other)
  | relabel {S T : Type} [Ord S] [Std.TransOrd S] [Std.LawfulEqOrd S] [Ord T] [Std.TransOrd T]
      [Std.LawfulEqOrd T] {nfa : Nfa S} (f : S → T) : Built nfa → Built (nfa.relabel f)

variable {S T : Type} [Ord S] [Std.TransOrd S] [Ord T] [Std.TransOrd T]

/-- The row has moves, on no symbol without targets, and stays among the given characters and
states. -/
structure Row.Closed (alphabet : OrderedSet Char) (states : OrderedSet S) (row : Row S) : Prop where
  nonempty : row ≠ ∅
  targets_nonempty : ∀ (symbol : Symbol) (targets : OrderedSet S),
    row[symbol]? = some targets → targets ≠ ∅
  target_mem : ∀ (symbol : Symbol) (targets : OrderedSet S) (target : S),
    row[symbol]? = some targets → target ∈ targets → target ∈ states
  char_mem : ∀ (c : Char) (targets : OrderedSet S),
    row[Symbol.char c]? = some targets → c ∈ alphabet

/-- The automaton mentions only states and characters of its own, and has no empty row. -/
structure Closed (nfa : Nfa S) : Prop where
  start_mem : nfa.start ∈ nfa.states
  accepting_mem : ∀ state, state ∈ nfa.accepting → state ∈ nfa.states
  source_mem : ∀ (source : S) (row : Row S), nfa.rows[source]? = some row → source ∈ nfa.states
  row_closed : ∀ (source : S) (row : Row S),
    nfa.rows[source]? = some row → Row.Closed nfa.alphabet nfa.states row

namespace Row.Closed

theorem mono {alphabet wider : OrderedSet Char} {states more : OrderedSet S} {row : Row S}
    (closed : Row.Closed alphabet states row)
    (chars : ∀ c, c ∈ alphabet → c ∈ wider) (keeps : ∀ state, state ∈ states → state ∈ more) :
    Row.Closed wider more row where
  nonempty := closed.nonempty
  targets_nonempty := closed.targets_nonempty
  target_mem symbol targets target present member :=
    keeps target (closed.target_mem symbol targets target present member)
  char_mem c targets present := chars c (closed.char_mem c targets present)

theorem add [Std.LawfulEqOrd S] {alphabet : OrderedSet Char} {states : OrderedSet S} {row : Row S}
    {symbol : Symbol} {target : S}
    (closed : row = ∅ ∨ Row.Closed alphabet states row)
    (char : ∀ c, symbol = .char c → c ∈ alphabet) (member : target ∈ states) :
    Row.Closed alphabet states (row.add symbol target) := by
  have old : ∀ {label : Symbol} {targets : OrderedSet S}, row[label]? = some targets →
      Row.Closed alphabet states row := by
    intro label targets present
    rcases closed with rfl | closed
    · simp at present
    · exact closed
  constructor
  · refine Std.ExtTreeMap.ne_empty_of_mem (a := symbol) ?_
    rw [Std.ExtTreeMap.mem_iff_isSome_getElem?, Row.getElem?_add, if_pos rfl]
    rfl
  · intro label targets present
    rw [Row.getElem?_add] at present
    split at present
    · cases present
      exact Std.ExtTreeSet.insert_ne_empty
    · exact (old present).targets_nonempty label targets present
  · intro label targets other present among
    rw [Row.getElem?_add] at present
    split at present
    · cases present
      rcases OrderedSet.mem_insert.mp among with rfl | among
      · exact member
      · cases before : row[label]? with
        | none => simp [before] at among
        | some targets =>
          exact (old before).target_mem label targets other before (by simpa [before] using among)
    · exact (old present).target_mem label targets other present among
  · intro c targets present
    rw [Row.getElem?_add] at present
    split at present
    · exact char c ‹symbol = .char c›
    · exact (old present).char_mem c targets present

theorem join {alphabet : OrderedSet Char} {states : OrderedSet S} {first second : Row S}
    (left : Row.Closed alphabet states first) (right : Row.Closed alphabet states second) :
    Row.Closed alphabet states (first.join second) := by
  have origin : ∀ {symbol : Symbol} {targets : OrderedSet S},
      (first.join second)[symbol]? = some targets →
        first[symbol]? = some targets ∨ second[symbol]? = some targets ∨
          ∃ own other, first[symbol]? = some own ∧ second[symbol]? = some other ∧
            targets = own ∪ other := by
    intro symbol targets present
    rw [Row.getElem?_join] at present
    cases own : first[symbol]? <;> cases other : second[symbol]? <;> simp_all
  constructor
  · intro empty
    apply right.nonempty
    rw [Std.ExtTreeMap.eq_empty_iff_forall_not_mem]
    intro symbol member
    rw [Std.ExtTreeMap.eq_empty_iff_forall_not_mem] at empty
    apply empty symbol
    rw [Std.ExtTreeMap.mem_iff_isSome_getElem?] at member ⊢
    rw [Row.getElem?_join]
    cases present : second[symbol]? <;> simp_all
  · intro symbol targets present
    rcases origin present with own | other | ⟨own, other, fromFirst, _, rfl⟩
    · exact left.targets_nonempty symbol targets own
    · exact right.targets_nonempty symbol targets other
    · intro empty
      apply left.targets_nonempty symbol own fromFirst
      rw [Std.ExtTreeSet.eq_empty_iff_forall_not_mem] at empty ⊢
      intro target member
      exact empty target (Std.ExtTreeSet.mem_union_iff.mpr (.inl member))
  · intro symbol targets target present member
    rcases origin present with own | other | ⟨own, other, fromFirst, fromSecond, rfl⟩
    · exact left.target_mem symbol targets target own member
    · exact right.target_mem symbol targets target other member
    · rcases Std.ExtTreeSet.mem_union_iff.mp member with member | member
      · exact left.target_mem symbol own target fromFirst member
      · exact right.target_mem symbol other target fromSecond member
  · intro c targets present
    rcases origin present with own | other | ⟨own, _, fromFirst, _, rfl⟩
    · exact left.char_mem c targets own
    · exact right.char_mem c targets other
    · exact left.char_mem c own fromFirst

theorem relabel [Std.LawfulEqOrd S] [Std.LawfulEqOrd T] {alphabet : OrderedSet Char}
    {states : OrderedSet S} {row : Row S} (f : S → T) (closed : Row.Closed alphabet states row) :
    Row.Closed alphabet (OrderedSet.image f states) (row.relabel f) := by
  have origin : ∀ {symbol : Symbol} {targets : OrderedSet T},
      (row.relabel f)[symbol]? = some targets →
        ∃ before, row[symbol]? = some before ∧ OrderedSet.image f before = targets := by
    intro symbol targets present
    rw [Row.getElem?_relabel] at present
    exact Option.map_eq_some_iff.mp present
  constructor
  · intro empty
    exact closed.nonempty (Std.ExtTreeMap.map_eq_empty_iff.mp empty)
  · intro symbol targets present
    obtain ⟨before, source, rfl⟩ := origin present
    intro empty
    apply closed.targets_nonempty symbol before source
    rw [Std.ExtTreeSet.eq_empty_iff_forall_not_mem] at empty ⊢
    intro target member
    exact empty (f target) (OrderedSet.mem_image.mpr ⟨target, member, rfl⟩)
  · intro symbol targets target present member
    obtain ⟨before, source, rfl⟩ := origin present
    obtain ⟨state, among, rfl⟩ := OrderedSet.mem_image.mp member
    exact OrderedSet.mem_image.mpr
      ⟨state, closed.target_mem symbol before state source among, rfl⟩
  · intro c targets present
    obtain ⟨before, source, rfl⟩ := origin present
    exact closed.char_mem c before source

end Row.Closed

namespace Closed

variable [Std.LawfulEqOrd S] [Std.LawfulEqOrd T]

theorem singleton (start : S) : (Nfa.singleton start).Closed where
  start_mem := OrderedSet.mem_singleton.mpr rfl
  accepting_mem := by simp [Nfa.singleton]
  source_mem := by simp [Nfa.singleton]
  row_closed := by simp [Nfa.singleton]

theorem addState {nfa : Nfa S} (closed : nfa.Closed) (state : S) : (nfa.addState state).Closed where
  start_mem := OrderedSet.mem_insert.mpr (.inr closed.start_mem)
  accepting_mem other member :=
    OrderedSet.mem_insert.mpr (.inr (closed.accepting_mem other member))
  source_mem source row present :=
    OrderedSet.mem_insert.mpr (.inr (closed.source_mem source row present))
  row_closed source row present :=
    (closed.row_closed source row present).mono (fun _ member => member)
      fun _ member => OrderedSet.mem_insert.mpr (.inr member)

theorem markAccepting {nfa : Nfa S} (closed : nfa.Closed) (state : S) :
    (nfa.markAccepting state).Closed where
  start_mem := OrderedSet.mem_insert.mpr (.inr closed.start_mem)
  accepting_mem other member := by
    rcases OrderedSet.mem_insert.mp member with rfl | member
    · exact OrderedSet.mem_insert.mpr (.inl rfl)
    · exact OrderedSet.mem_insert.mpr (.inr (closed.accepting_mem other member))
  source_mem source row present :=
    OrderedSet.mem_insert.mpr (.inr (closed.source_mem source row present))
  row_closed source row present :=
    (closed.row_closed source row present).mono (fun _ member => member)
      fun _ member => OrderedSet.mem_insert.mpr (.inr member)

omit [Std.LawfulEqOrd S] in
theorem clearAccepting {nfa : Nfa S} (closed : nfa.Closed) : nfa.clearAccepting.Closed where
  start_mem := closed.start_mem
  accepting_mem := by simp [Nfa.clearAccepting]
  source_mem := closed.source_mem
  row_closed := closed.row_closed

theorem addMove {nfa : Nfa S} (closed : nfa.Closed) (origin : S) (symbol : Symbol) (goal : S) :
    (nfa.addMove origin symbol goal).Closed := by
  have keeps : ∀ state, state ∈ nfa.states → state ∈ (nfa.addMove origin symbol goal).states :=
    fun state member => OrderedSet.mem_insert.mpr (.inr (OrderedSet.mem_insert.mpr (.inr member)))
  have chars : ∀ c, c ∈ nfa.alphabet → c ∈ (nfa.addMove origin symbol goal).alphabet := by
    intro c member
    cases symbol with
    | char d => exact OrderedSet.mem_insert.mpr (.inr member)
    | epsilon => exact member
  have originMember : origin ∈ (nfa.addMove origin symbol goal).states :=
    OrderedSet.mem_insert.mpr (.inr (OrderedSet.mem_insert.mpr (.inl rfl)))
  have goalMember : goal ∈ (nfa.addMove origin symbol goal).states :=
    OrderedSet.mem_insert.mpr (.inl rfl)
  constructor
  · exact keeps nfa.start closed.start_mem
  · intro state member
    exact keeps state (closed.accepting_mem state member)
  · intro source row present
    rw [getElem?_rows_addMove] at present
    split at present
    · exact Std.LawfulEqOrd.eq_of_compare ‹compare origin source = .eq› ▸ originMember
    · exact keeps source (closed.source_mem source row present)
  · intro source row present
    rw [getElem?_rows_addMove] at present
    split at present
    · cases present
      refine Row.Closed.add ?_ ?_ goalMember
      · cases before : nfa.rows[source]? with
        | none => exact .inl rfl
        | some row => exact .inr ((closed.row_closed source row before).mono chars keeps)
      · rintro c rfl
        exact OrderedSet.mem_insert.mpr (.inl rfl)
    · exact (closed.row_closed source row present).mono chars keeps

theorem absorb {nfa other : Nfa S} (closed : nfa.Closed) (otherClosed : other.Closed) :
    (nfa.absorb other).Closed := by
  have left : ∀ state, state ∈ nfa.states → state ∈ (nfa.absorb other).states :=
    fun state member => Std.ExtTreeSet.mem_union_iff.mpr (.inl member)
  have right : ∀ state, state ∈ other.states → state ∈ (nfa.absorb other).states :=
    fun state member => Std.ExtTreeSet.mem_union_iff.mpr (.inr member)
  have leftChars : ∀ c, c ∈ nfa.alphabet → c ∈ (nfa.absorb other).alphabet :=
    fun c member => Std.ExtTreeSet.mem_union_iff.mpr (.inl member)
  have rightChars : ∀ c, c ∈ other.alphabet → c ∈ (nfa.absorb other).alphabet :=
    fun c member => Std.ExtTreeSet.mem_union_iff.mpr (.inr member)
  constructor
  · exact left nfa.start closed.start_mem
  · intro state member
    exact left state (closed.accepting_mem state member)
  · intro source row present
    rw [getElem?_rows_absorb] at present
    cases theirs : other.rows[source]? with
    | some row => exact right source (otherClosed.source_mem source row theirs)
    | none =>
      rw [theirs] at present
      exact left source (closed.source_mem source row present)
  · intro source row present
    rw [getElem?_rows_absorb] at present
    cases theirs : other.rows[source]? with
    | none =>
      rw [theirs] at present
      exact (closed.row_closed source row present).mono leftChars left
    | some added =>
      have addedClosed := (otherClosed.row_closed source added theirs).mono rightChars right
      cases own : nfa.rows[source]? with
      | none =>
        rw [theirs, own] at present
        cases present
        exact addedClosed
      | some before =>
        rw [theirs, own] at present
        cases present
        exact ((closed.row_closed source before own).mono leftChars left).join addedClosed

theorem relabel {nfa : Nfa S} (closed : nfa.Closed) (f : S → T) : (nfa.relabel f).Closed := by
  have origin : ∀ {name : T} {row : Row T}, (nfa.relabel f).rows[name]? = some row →
      ∃ source before, nfa.rows[source]? = some before ∧ f source = name ∧
        before.relabel f = row := by
    intro name row present
    obtain ⟨source, renamed, same⟩ := OrderedMap.exists_of_getElem?_rename present
    rw [Std.ExtTreeMap.getElem?_map] at renamed
    obtain ⟨before, there, rfl⟩ := Option.map_eq_some_iff.mp renamed
    exact ⟨source, before, there, same, rfl⟩
  constructor
  · exact OrderedSet.mem_image.mpr ⟨nfa.start, closed.start_mem, rfl⟩
  · intro state member
    obtain ⟨before, among, rfl⟩ := OrderedSet.mem_image.mp member
    exact OrderedSet.mem_image.mpr ⟨before, closed.accepting_mem before among, rfl⟩
  · intro name row present
    obtain ⟨source, before, there, rfl, rfl⟩ := origin present
    exact OrderedSet.mem_image.mpr ⟨source, closed.source_mem source before there, rfl⟩
  · intro name row present
    obtain ⟨source, before, there, rfl, rfl⟩ := origin present
    exact (closed.row_closed source before there).relabel f

end Closed

/-- Whatever the operations build is closed. -/
theorem Built.closed {S : Type} [Ord S] [Std.TransOrd S] {nfa : Nfa S} (built : nfa.Built) :
    nfa.Closed := by
  induction built with
  | singleton start => exact .singleton start
  | addState state _ ih => exact ih.addState state
  | addMove source symbol target _ ih => exact ih.addMove source symbol target
  | markAccepting state _ ih => exact ih.markAccepting state
  | clearAccepting _ ih => exact ih.clearAccepting
  | absorb _ _ ih otherIh => exact ih.absorb otherIh
  | relabel f _ ih => exact ih.relabel f

end PatternAutomata.Nfa
