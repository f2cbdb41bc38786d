import PatternAutomata.Dfa.Moves

/-!
# Deterministic automata that are built

The deterministic automata that arise from single states by the operations, over whatever ordered
types of states.  All of them are closed: what they mention belongs to them, and nothing is
mentioned emptily.
-/

namespace PatternAutomata.Dfa

/-- The automaton arises from an automaton of a single state by the operations. -/
inductive Built : {S : Type} → [Ord S] → [Std.TransOrd S] → Dfa S → Prop where
  | singleton {S : Type} [Ord S] [Std.TransOrd S] [Std.LawfulEqOrd S]
      (alphabet : OrderedSet Char) (start : S) : Built (Dfa.singleton alphabet start)
  | setMove {S : Type} [Ord S] [Std.TransOrd S] [Std.LawfulEqOrd S] {dfa : Dfa S} (source : S)
      (c : Char) (target : S) : Built dfa → Built (dfa.setMove source c target)
  | markAccepting {S : Type} [Ord S] [Std.TransOrd S] [Std.LawfulEqOrd S] {dfa : Dfa S}
      (state : S) : Built dfa → Built (dfa.markAccepting state)
  | withMissing {S : Type} [Ord S] [Std.TransOrd S] [Std.LawfulEqOrd S] {dfa : Dfa S}
      (missing : MissingMove) : Built dfa → Built (dfa.withMissing missing)
  | relabel {S T : Type} [Ord S] [Std.TransOrd S] [Std.LawfulEqOrd S] [Ord T] [Std.TransOrd T]
      [Std.LawfulEqOrd T] {dfa : Dfa S} (f : S → T) : Built dfa → Built (dfa.relabel f)
  | renumber {S : Type} [Ord S] [Std.TransOrd S] [Std.LawfulEqOrd S] {dfa : Dfa S} :
      Built dfa → Built dfa.renumber

variable {S T : Type} [Ord S] [Std.TransOrd S] [Ord T] [Std.TransOrd T]

/-- The row has moves, and stays among the given characters and states. -/
structure Row.Closed (alphabet : OrderedSet Char) (states : OrderedSet S) (row : Row S) : Prop where
  nonempty : row ≠ ∅
  target_mem : ∀ (c : Char) (target : S), row[c]? = some target → target ∈ states
  char_mem : ∀ (c : Char) (target : S), row[c]? = some target → c ∈ alphabet

/-- The automaton mentions only states and characters of its own, and has no empty row. -/
structure Closed (dfa : Dfa S) : Prop where
  start_mem : dfa.start ∈ dfa.states
  accepting_mem : ∀ state, state ∈ dfa.accepting → state ∈ dfa.states
  source_mem : ∀ (source : S) (row : Row S), dfa.rows[source]? = some row → source ∈ dfa.states
  row_closed : ∀ (source : S) (row : Row S),
    dfa.rows[source]? = some row → Row.Closed dfa.alphabet dfa.states row

namespace Row.Closed

theorem mono {alphabet wider : OrderedSet Char} {states more : OrderedSet S} {row : Row S}
    (closed : Row.Closed alphabet states row)
    (chars : ∀ c, c ∈ alphabet → c ∈ wider) (keeps : ∀ state, state ∈ states → state ∈ more) :
    Row.Closed wider more row where
  nonempty := closed.nonempty
  target_mem c target present := keeps target (closed.target_mem c target present)
  char_mem c target present := chars c (closed.char_mem c target present)

theorem insert {alphabet : OrderedSet Char} {states : OrderedSet S} {row : Row S} {c : Char}
    {target : S} (closed : row = ∅ ∨ Row.Closed alphabet states row)
    (char : c ∈ alphabet) (member : target ∈ states) :
    Row.Closed alphabet states (row.insert c target) := by
  have old : ∀ {d : Char} {other : S}, row[d]? = some other → Row.Closed alphabet states row := by
    intro d other present
    rcases closed with rfl | closed
    · simp at present
    · exact closed
  constructor
  · exact Std.ExtTreeMap.insert_ne_empty
  · intro d other present
    rw [Std.ExtTreeMap.getElem?_insert] at present
    split at present
    · cases present
      exact member
    · exact (old present).target_mem d other present
  · intro d other present
    rw [Std.ExtTreeMap.getElem?_insert] at present
    split at present
    · exact Std.LawfulEqOrd.eq_of_compare ‹compare c d = .eq› ▸ char
    · exact (old present).char_mem d other present

theorem map [Std.LawfulEqOrd S] [Std.LawfulEqOrd T] {alphabet : OrderedSet Char}
    {states : OrderedSet S} {row : Row S} (f : S → T) (closed : Row.Closed alphabet states row) :
    Row.Closed alphabet (OrderedSet.image f states) (row.map fun _ => f) := by
  have origin : ∀ {c : Char} {target : T}, (row.map fun _ => f)[c]? = some target →
      ∃ before, row[c]? = some before ∧ f before = target := by
    intro c target present
    rw [Std.ExtTreeMap.getElem?_map] at present
    exact Option.map_eq_some_iff.mp present
  constructor
  · intro empty
    exact closed.nonempty (Std.ExtTreeMap.map_eq_empty_iff.mp empty)
  · intro c target present
    obtain ⟨before, there, rfl⟩ := origin present
    exact OrderedSet.mem_image.mpr ⟨before, closed.target_mem c before there, rfl⟩
  · intro c target present
    obtain ⟨before, there, rfl⟩ := origin present
    exact closed.char_mem c before there

end Row.Closed

namespace Closed

variable [Std.LawfulEqOrd S] [Std.LawfulEqOrd T]

theorem singleton (alphabet : OrderedSet Char) (start : S) :
    (Dfa.singleton alphabet start).Closed where
  start_mem := OrderedSet.mem_singleton.mpr rfl
  accepting_mem := by simp [Dfa.singleton]
  source_mem := by simp [Dfa.singleton]
  row_closed := by simp [Dfa.singleton]

theorem setMove {dfa : Dfa S} (closed : dfa.Closed) (origin : S) (c : Char) (goal : S) :
    (dfa.setMove origin c goal).Closed := by
  have keeps : ∀ state, state ∈ dfa.states → state ∈ (dfa.setMove origin c goal).states :=
    fun state member => OrderedSet.mem_insert.mpr (.inr (OrderedSet.mem_insert.mpr (.inr member)))
  have chars : ∀ d, d ∈ dfa.alphabet → d ∈ (dfa.setMove origin c goal).alphabet :=
    fun d member => OrderedSet.mem_insert.mpr (.inr member)
  have originMember : origin ∈ (dfa.setMove origin c goal).states :=
    OrderedSet.mem_insert.mpr (.inr (OrderedSet.mem_insert.mpr (.inl rfl)))
  constructor
  · exact keeps dfa.start closed.start_mem
  · intro state member
    exact keeps state (closed.accepting_mem state member)
  · intro source row present
    rw [getElem?_rows_setMove] at present
    split at present
    · exact Std.LawfulEqOrd.eq_of_compare ‹compare origin source = .eq› ▸ originMember
    · exact keeps source (closed.source_mem source row present)
  · intro source row present
    rw [getElem?_rows_setMove] at present
    split at present
    · cases present
      refine Row.Closed.insert ?_ (OrderedSet.mem_insert.mpr (.inl rfl))
        (OrderedSet.mem_insert.mpr (.inl rfl))
      cases before : dfa.rows[source]? with
      | none => exact .inl rfl
      | some row => exact .inr ((closed.row_closed source row before).mono chars keeps)
    · exact (closed.row_closed source row present).mono chars keeps

theorem markAccepting {dfa : Dfa S} (closed : dfa.Closed) (state : S) :
    (dfa.markAccepting state).Closed where
  start_mem := OrderedSet.mem_insert.mpr (.inr closed.start_mem)
  accepting_mem other member := by
    rcases OrderedSet.mem_insert.mp member with rfl | member
    · exact OrderedSet.mem_insert.mpr (.inl rfl)
    · exact OrderedSet.mem_insert.mpr (.inr (closed.accepting_mem other member))
  source_mem source row present :=
    OrderedSet.mem_insert.mpr (.inr (closed.source_mem source row present))
  row_closed source row present :=
    (closed.row_closed source row present).mono (fun _ member => member)
      fun _ member => OrderedSet.mem_insert.mpr (.inr member)

omit [Std.LawfulEqOrd S] in
theorem withMissing {dfa : Dfa S} (closed : dfa.Closed) (missing : MissingMove) :
    (dfa.withMissing missing).Closed where
  start_mem := closed.start_mem
  accepting_mem := closed.accepting_mem
  source_mem := closed.source_mem
  row_closed := closed.row_closed

theorem relabel {dfa : Dfa S} (closed : dfa.Closed) (f : S → T) : (dfa.relabel f).Closed := by
  have origin : ∀ {name : T} {row : Row T}, (dfa.relabel f).rows[name]? = some row →
      ∃ source before, dfa.rows[source]? = some before ∧ f source = name ∧
        (before.map fun _ => f) = row := by
    intro name row present
    obtain ⟨source, renamed, same⟩ := OrderedMap.exists_of_getElem?_rename present
    rw [Std.ExtTreeMap.getElem?_map] at renamed
    obtain ⟨before, there, rfl⟩ := Option.map_eq_some_iff.mp renamed
    exact ⟨source, before, there, same, rfl⟩
  constructor
  · exact OrderedSet.mem_image.mpr ⟨dfa.start, closed.start_mem, rfl⟩
  · intro state member
    obtain ⟨before, among, rfl⟩ := OrderedSet.mem_image.mp member
    exact OrderedSet.mem_image.mpr ⟨before, closed.accepting_mem before among, rfl⟩
  · intro name row present
    obtain ⟨source, before, there, rfl, rfl⟩ := origin present
    exact OrderedSet.mem_image.mpr ⟨source, closed.source_mem source before there, rfl⟩
  · intro name row present
    obtain ⟨source, before, there, rfl, rfl⟩ := origin present
    exact (closed.row_closed source before there).map f

end Closed

/-- Whatever the operations build is closed. -/
theorem Built.closed {S : Type} [Ord S] [Std.TransOrd S] {dfa : Dfa S} (built : dfa.Built) :
    dfa.Closed := by
  induction built with
  | singleton alphabet start => exact .singleton alphabet start
  | setMove source c target _ ih => exact ih.setMove source c target
  | markAccepting state _ ih => exact ih.markAccepting state
  | withMissing missing _ ih => exact ih.withMissing missing
  | relabel f _ ih => exact ih.relabel f
  | renumber _ ih => exact ih.relabel _

end PatternAutomata.Dfa
