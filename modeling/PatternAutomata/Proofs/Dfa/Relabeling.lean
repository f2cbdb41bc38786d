import PatternAutomata.Dfa.Built
import PatternAutomata.Proofs.Ordered.Images
import PatternAutomata.Proofs.Ordered.Renaming

/-!
# Renamed deterministic automata

As long as no two states get one name, renaming the states renames the ends of the moves and nothing
else.  Where states are merged, the row of the greatest one stays; so renaming twice is renaming once
if the first renaming does not reverse states that are merged in the end.
-/

namespace PatternAutomata.Dfa

variable {S T U : Type} [Ord S] [Std.TransOrd S] [Std.LawfulEqOrd S]
  [Ord T] [Std.TransOrd T] [Std.LawfulEqOrd T] [Ord U] [Std.TransOrd U] [Std.LawfulEqOrd U]
  {dfa : Dfa S}

omit [Std.LawfulEqOrd S] in
theorem target?_eq_some_iff {source target : S} {c : Char} :
    dfa.target? source c = some target ↔
      ∃ row, dfa.rows[source]? = some row ∧ row[c]? = some target :=
  Option.bind_eq_some_iff

omit [Std.LawfulEqOrd S] in
theorem mem_rows_of_target? {source target : S} {c : Char}
    (move : dfa.target? source c = some target) : source ∈ dfa.rows := by
  obtain ⟨row, present, _⟩ := target?_eq_some_iff.mp move
  exact OrderedMap.mem_of_getElem? present

/-- The moves from a name are the renamed moves of the source that prevails. -/
theorem target?_relabel {f : S → T} {name goal : T} {c : Char} :
    (dfa.relabel f).target? name c = some goal ↔
      ∃ source target, OrderedMap.Prevails f (· ∈ dfa.rows) name source ∧
        dfa.target? source c = some target ∧ f target = goal := by
  have row_iff : ∀ {row : Row T}, (dfa.relabel f).rows[name]? = some row ↔
      ∃ source before, OrderedMap.Prevails f (· ∈ dfa.rows) name source ∧
        dfa.rows[source]? = some before ∧ (before.map fun _ => f) = row := by
    intro row
    apply OrderedMap.getElem?_rename_iff.trans
    simp only [Std.ExtTreeMap.mem_map, Std.ExtTreeMap.getElem?_map, Option.map_eq_some_iff,
      exists_and_left]
  rw [target?_eq_some_iff]
  constructor
  · intro moved
    obtain ⟨row, present, entry⟩ := moved
    obtain ⟨source, before, prevails, there, rfl⟩ := row_iff.mp present
    rw [Std.ExtTreeMap.getElem?_map] at entry
    obtain ⟨target, among, same⟩ := Option.map_eq_some_iff.mp entry
    exact ⟨source, target, prevails, target?_eq_some_iff.mpr ⟨before, there, among⟩, same⟩
  · intro moved
    obtain ⟨source, target, prevails, move, rfl⟩ := moved
    obtain ⟨before, there, among⟩ := target?_eq_some_iff.mp move
    refine ⟨before.map fun _ => f, row_iff.mpr ⟨source, before, prevails, there, rfl⟩, ?_⟩
    rw [Std.ExtTreeMap.getElem?_map, among]
    rfl

/-- Renaming twice is renaming once if the sources are not merged out of order. -/
theorem relabel_relabel {f : S → T} {g : T → U}
    (inOrder : OrderedMap.MergesInOrder f g (· ∈ dfa.rows)) :
    (dfa.relabel f).relabel g = dfa.relabel (g ∘ f) := by
  have changed : ((fun row => row.map fun _ => g) ∘ fun row => row.map fun _ => f) =
      fun row : Row S => row.map fun _ => g ∘ f := by
    funext row
    exact Std.ExtTreeMap.map_map
  have rows := OrderedMap.rename_map_rename_map inOrder (fun row : Row S => row.map fun _ => f)
    fun row => row.map fun _ => g
  rw [changed] at rows
  simp only [relabel, rows, OrderedSet.image_image, Function.comp_apply]

namespace Closed

omit [Std.LawfulEqOrd S] in
theorem source_mem_of_mem_rows
    (closed : dfa.Closed) {source : S} (member : source ∈ dfa.rows) :
    source ∈ dfa.states := by
  obtain ⟨row, present⟩ := OrderedMap.mem_iff_exists.mp member
  exact closed.source_mem source row present

omit [Std.LawfulEqOrd S] in
theorem source_mem_of_target?
    (closed : dfa.Closed) {source target : S} {c : Char}
    (move : dfa.target? source c = some target) :
    source ∈ dfa.states :=
  closed.source_mem_of_mem_rows (mem_rows_of_target? move)

omit [Std.LawfulEqOrd S] in
theorem target_mem_of_target?
    (closed : dfa.Closed) {source target : S} {c : Char}
    (move : dfa.target? source c = some target) :
    target ∈ dfa.states := by
  obtain ⟨row, present, entry⟩ := target?_eq_some_iff.mp move
  exact (closed.row_closed source row present).target_mem c target entry

/-- Closed automata with the same parts are equal. -/
theorem ext
    {first second : Dfa S} (firstClosed : first.Closed) (secondClosed : second.Closed)
    (alphabet : first.alphabet = second.alphabet)
    (states : ∀ state, state ∈ first.states ↔ state ∈ second.states)
    (start : first.start = second.start)
    (moves : ∀ source c target,
      first.target? source c = some target ↔ second.target? source c = some target)
    (accepting : ∀ state, state ∈ first.accepting ↔ state ∈ second.accepting)
    (missing : first.missing = second.missing) :
    first = second := by
  have rows : first.rows = second.rows := by
    apply OrderedMap.eq_of_getElem?_getElem?
    · intro source row present
      exact (firstClosed.row_closed source row present).nonempty
    · intro source row present
      exact (secondClosed.row_closed source row present).nonempty
    · intro source c
      exact Option.ext fun target => moves source c target
  cases first
  cases second
  congr 1
  · exact Std.ExtTreeSet.ext_mem states
  · exact Std.ExtTreeSet.ext_mem accepting

/-- Renaming the states apart renames the ends of the moves. -/
theorem target?_relabel_iff
    (closed : dfa.Closed) {f : S → T} (injective : OrderedSet.InjectiveOn f dfa.states)
    {name goal : T} {c : Char} :
    (dfa.relabel f).target? name c = some goal ↔
      ∃ source target, dfa.target? source c = some target ∧ f source = name ∧ f target = goal := by
  rw [target?_relabel]
  constructor
  · intro moved
    obtain ⟨source, target, prevails, move, same⟩ := moved
    exact ⟨source, target, move, prevails.named, same⟩
  · intro moved
    obtain ⟨source, target, move, rfl, same⟩ := moved
    refine ⟨source, target, ?_, move, same⟩
    apply OrderedMap.Prevails.of_injective
    · intro first second member other
      exact injective first second (closed.source_mem_of_mem_rows member)
        (closed.source_mem_of_mem_rows other)
    · exact mem_rows_of_target? move

theorem relabel_relabel
    (closed : dfa.Closed) {f : S → T} {g : T → U}
    (inOrder : OrderedMap.MergesInOrder f g (· ∈ dfa.states)) :
    (dfa.relabel f).relabel g = dfa.relabel (g ∘ f) :=
  Dfa.relabel_relabel (inOrder.mono fun _ member => closed.source_mem_of_mem_rows member)

/-- Renaming looks at the names of the states of the automaton only. -/
theorem relabel_congr
    (closed : dfa.Closed) {f g : S → T} (agree : ∀ state, state ∈ dfa.states → f state = g state) :
    dfa.relabel f = dfa.relabel g := by
  have rows : (dfa.rows.map fun _ row => row.map fun _ => f) =
      dfa.rows.map fun _ row => row.map fun _ => g := by
    apply Std.ExtTreeMap.ext_getElem?
    intro source
    rw [Std.ExtTreeMap.getElem?_map, Std.ExtTreeMap.getElem?_map]
    cases present : dfa.rows[source]? with
    | none => rfl
    | some row =>
        apply congrArg some
        apply Std.ExtTreeMap.ext_getElem?
        intro c
        rw [Std.ExtTreeMap.getElem?_map, Std.ExtTreeMap.getElem?_map]
        cases entry : row[c]? with
        | none => rfl
        | some target =>
            have member := (closed.row_closed source row present).target_mem c target entry
            exact congrArg some (agree target member)
  have renamed : OrderedMap.rename f (dfa.rows.map fun _ row => row.map fun _ => g) =
      OrderedMap.rename g (dfa.rows.map fun _ row => row.map fun _ => g) := by
    apply OrderedMap.rename_congr
    intro source member
    rw [Std.ExtTreeMap.mem_map] at member
    exact agree source (closed.source_mem_of_mem_rows member)
  have accepting := OrderedSet.image_congr fun state member =>
    agree state (closed.accepting_mem state member)
  rw [Dfa.relabel, Dfa.relabel, rows, renamed, accepting, OrderedSet.image_congr agree,
    agree dfa.start closed.start_mem]

end Closed

end PatternAutomata.Dfa
