import PatternAutomata.Dfa.Numbering
import PatternAutomata.Proofs.Dfa.Reading
import PatternAutomata.Proofs.Dfa.Relabeling

/-!
# Numbering the states

The number of a state is its place in the listing of the states, which a renaming that keeps their
order does not change: such a renaming is undone by numbering the states.  Numbering is itself a
renaming that keeps the order, and automata that correspond state by state read every word alike.
-/

namespace PatternAutomata.Dfa

variable {S T : Type} [Ord S] [Std.TransOrd S] [Ord T] [Std.TransOrd T]

namespace Closed

variable {dfa : Dfa S} {state next final : S} {c : Char} {word : List Char}

theorem mem_states_of_advance
    (closed : dfa.Closed) (member : state ∈ dfa.states) (reads : dfa.advance state c = some next) :
    next ∈ dfa.states := by
  rw [advance] at reads
  split at reads
  case isFalse => cases reads
  case isTrue =>
    cases move : dfa.target? state c with
    | some target =>
      rw [move] at reads
      cases reads
      exact closed.target_mem_of_target? move
    | none =>
      rw [move] at reads
      cases missing : dfa.missing with
      | stay =>
        rw [missing] at reads
        cases reads
        exact member
      | reject =>
        rw [missing] at reads
        cases reads

theorem mem_states_of_run
    (closed : dfa.Closed) (member : state ∈ dfa.states) (reads : dfa.run state word = some final) :
    final ∈ dfa.states := by
  induction word generalizing state with
  | nil =>
    cases reads
    exact member
  | cons c word ih =>
    rw [run_cons] at reads
    obtain ⟨next, step, rest⟩ := Option.bind_eq_some_iff.mp reads
    exact ih (closed.mem_states_of_advance member step) rest

end Closed

namespace OrderIsomorphism

variable {f : S → T} {first : Dfa S} {second : Dfa T} {state : S} {c : Char} {word : List Char}

theorem withMissing
    (isomorphism : OrderIsomorphism f first second) (missing : MissingMove) :
    OrderIsomorphism f (first.withMissing missing) (second.withMissing missing) :=
  { isomorphism with missing_eq := rfl }

/-- A character is read alike: by a move, by skipping it, or not at all. -/
theorem advance_eq
    (isomorphism : OrderIsomorphism f first second) (member : state ∈ first.states) :
    second.advance (f state) c = (first.advance state c).map f := by
  rw [advance, advance, isomorphism.alphabet_eq, isomorphism.missing_eq,
    isomorphism.target?_eq state c member]
  split
  case isFalse => rfl
  case isTrue =>
    cases first.target? state c with
    | some target => rfl
    | none => cases first.missing <;> rfl

theorem run_eq
    (isomorphism : OrderIsomorphism f first second) (closed : first.Closed)
    (member : state ∈ first.states) :
    second.run (f state) word = (first.run state word).map f := by
  induction word generalizing state with
  | nil => rfl
  | cons c word ih =>
    rw [run_cons, run_cons, isomorphism.advance_eq member]
    cases step : first.advance state c with
    | none => rfl
    | some next => exact ih (closed.mem_states_of_advance member step)

variable [Std.LawfulEqOrd S] [Std.LawfulEqOrd T]

theorem isAccepting_eq
    (isomorphism : OrderIsomorphism f first second) (closed : first.Closed)
    (member : state ∈ first.states) :
    second.isAccepting (f state) = first.isAccepting state := by
  rw [Bool.eq_iff_iff, isAccepting, isAccepting, ← Std.ExtTreeSet.mem_iff_contains,
    ← Std.ExtTreeSet.mem_iff_contains, isomorphism.mem_accepting_iff]
  constructor
  · intro accepted
    obtain ⟨other, among, same⟩ := accepted
    have equal : other = state := isomorphism.increasing.injectiveOn other state
      (closed.accepting_mem other among) member same
    exact equal ▸ among
  · intro among
    exact ⟨state, among, rfl⟩

/-- Automata that correspond state by state accept the same words. -/
theorem accepts_eq
    (isomorphism : OrderIsomorphism f first second) (closed : first.Closed) :
    second.accepts word = first.accepts word := by
  rw [accepts, accepts, isomorphism.start_eq, isomorphism.run_eq closed closed.start_mem]
  cases reads : first.run first.start word with
  | none => rfl
  | some final =>
    exact isomorphism.isAccepting_eq closed (closed.mem_states_of_run closed.start_mem reads)

end OrderIsomorphism

variable [Std.LawfulEqOrd S] [Std.LawfulEqOrd T] {dfa : Dfa S}

/-- A renaming that keeps the order of the states changes nothing but their names. -/
theorem Closed.orderIsomorphism_relabel
    (closed : dfa.Closed) {f : S → T} (increasing : OrderedSet.IncreasingOn f dfa.states) :
    OrderIsomorphism f dfa (dfa.relabel f) where
  alphabet_eq := rfl
  missing_eq := rfl
  mem_states_iff name := OrderedSet.mem_image
  increasing := increasing
  start_eq := rfl
  target?_eq state c member := by
    have injective := increasing.injectiveOn
    apply Option.ext
    intro goal
    rw [closed.target?_relabel_iff injective, Option.map_eq_some_iff]
    constructor
    · intro moved
      obtain ⟨source, target, move, same, named⟩ := moved
      have equal : source = state :=
        injective source state (closed.source_mem_of_target? move) member same
      exact ⟨target, equal ▸ move, named⟩
    · intro moved
      obtain ⟨target, move, named⟩ := moved
      exact ⟨state, target, move, rfl, named⟩
  mem_accepting_iff name := OrderedSet.mem_image

section Number

theorem number_getElem {index : Nat} (bound : index < dfa.states.toList.length) :
    dfa.number dfa.states.toList[index] = index := by
  have distinct : (dfa.states.toList.zipIdx.map Prod.fst).Pairwise fun first second =>
      ¬compare first second = .eq := by
    rw [List.zipIdx_map_fst]
    exact Std.ExtTreeSet.distinct_toList
  rw [List.pairwise_map] at distinct
  have entry : (dfa.states.toList[index], index) ∈ dfa.states.toList.zipIdx :=
    List.mk_mem_zipIdx_iff_getElem?.mpr (List.getElem?_eq_getElem bound)
  exact Std.ExtTreeMap.getD_ofList_of_mem Std.ReflCmp.compare_self distinct entry

/-- The states before a state in the listing are the smaller ones. -/
theorem number_eq_length_filter {state : S} (member : state ∈ dfa.states) :
    dfa.number state = (dfa.states.toList.filter (compare · state = .lt)).length := by
  obtain ⟨before, after, listed⟩ :=
    List.append_of_mem (Std.ExtTreeSet.mem_toList.mpr member)
  have ascending := Std.ExtTreeSet.ordered_toList (t := dfa.states)
  rw [listed] at ascending
  obtain ⟨_, fromState, apart⟩ := List.pairwise_append.mp ascending
  have smaller : before.filter (compare · state = .lt) = before := by
    apply List.filter_eq_self.mpr
    intro other among
    exact decide_eq_true (apart other among state List.mem_cons_self)
  have notSmaller : (state :: after).filter (compare · state = .lt) = [] := by
    apply List.filter_eq_nil_iff.mpr
    intro other among
    rcases List.mem_cons.mp among with rfl | later
    · simp
    · have above := (List.pairwise_cons.mp fromState).1 other later
      simpa using Std.OrientedCmp.not_lt_of_lt above
  have bound : before.length < dfa.states.toList.length := by
    simp [listed]
  have placed : dfa.states.toList[before.length] = state := by
    simp [listed]
  calc
    dfa.number state = dfa.number dfa.states.toList[before.length] := by rw [placed]
    _ = before.length := number_getElem bound
    _ = (dfa.states.toList.filter (compare · state = .lt)).length := by
      rw [listed, List.filter_append, smaller, notSmaller, List.append_nil]

theorem increasingOn_number : OrderedSet.IncreasingOn dfa.number dfa.states := by
  intro state other member otherMember below
  obtain ⟨index, bound, rfl⟩ := List.getElem_of_mem (Std.ExtTreeSet.mem_toList.mpr member)
  obtain ⟨otherIndex, otherBound, rfl⟩ :=
    List.getElem_of_mem (Std.ExtTreeSet.mem_toList.mpr otherMember)
  rw [number_getElem, number_getElem, Nat.compare_eq_lt]
  have ascending := List.pairwise_iff_getElem.mp (Std.ExtTreeSet.ordered_toList (t := dfa.states))
  rcases Nat.lt_trichotomy index otherIndex with earlier | same | later
  · exact earlier
  · subst same
    exact absurd (below.symm.trans Std.ReflCmp.compare_self) (by decide)
  · exact absurd below (Std.OrientedCmp.not_lt_of_lt
      (ascending otherIndex index otherBound bound later))

theorem mem_states_renumber {number : Nat} :
    number ∈ dfa.renumber.states ↔ number < dfa.states.size := by
  have image : number ∈ dfa.renumber.states ↔
      ∃ state, state ∈ dfa.states ∧ dfa.number state = number :=
    OrderedSet.mem_image
  rw [image, ← Std.ExtTreeSet.length_toList]
  constructor
  · intro named
    obtain ⟨state, member, rfl⟩ := named
    obtain ⟨index, bound, rfl⟩ := List.getElem_of_mem (Std.ExtTreeSet.mem_toList.mpr member)
    rwa [number_getElem]
  · intro bound
    exact ⟨dfa.states.toList[number], Std.ExtTreeSet.mem_toList.mp (List.getElem_mem bound),
      number_getElem bound⟩

/-- A renaming that keeps the order of the states keeps their numbers. -/
theorem number_relabel
    {g : S → T} (increasing : OrderedSet.IncreasingOn g dfa.states) {state : S}
    (member : state ∈ dfa.states) :
    (dfa.relabel g).number (g state) = dfa.number state := by
  obtain ⟨index, bound, rfl⟩ := List.getElem_of_mem (Std.ExtTreeSet.mem_toList.mpr member)
  have listed : (dfa.relabel g).states.toList = dfa.states.toList.map g :=
    increasing.toList_image
  have named : index < (dfa.relabel g).states.toList.length := by
    rw [listed, List.length_map]
    exact bound
  have same : g dfa.states.toList[index] = (dfa.relabel g).states.toList[index] := by
    simp only [listed, List.getElem_map]
  rw [same, number_getElem, number_getElem]

/-- Numbering the states undoes every renaming that keeps their order. -/
theorem Closed.renumber_relabel
    (closed : dfa.Closed) {g : S → T} (increasing : OrderedSet.IncreasingOn g dfa.states) :
    (dfa.relabel g).renumber = dfa.renumber := by
  have agree : ∀ state, state ∈ dfa.states →
      ((dfa.relabel g).number ∘ g) state = dfa.number state := by
    intro state member
    exact number_relabel increasing member
  have injective : OrderedSet.InjectiveOn ((dfa.relabel g).number ∘ g) dfa.states := by
    intro state other member otherMember same
    rw [agree state member, agree other otherMember] at same
    exact increasingOn_number.injectiveOn state other member otherMember same
  calc
    (dfa.relabel g).renumber = (dfa.relabel g).relabel (dfa.relabel g).number := rfl
    _ = dfa.relabel ((dfa.relabel g).number ∘ g) :=
      closed.relabel_relabel (.of_injective injective)
    _ = dfa.relabel dfa.number := closed.relabel_congr agree
    _ = dfa.renumber := rfl

end Number

/-- Whatever the operations build is numbered in order, without gaps and for good. -/
theorem Built.isNumberedIn_renumber (built : dfa.Built) : dfa.IsNumberedIn dfa.renumber := by
  have closed := built.closed
  have isomorphism : OrderIsomorphism dfa.number dfa dfa.renumber :=
    closed.orderIsomorphism_relabel increasingOn_number
  constructor
  · intro state member
    exact number_eq_length_filter member
  · intro number
    exact mem_states_renumber
  · exact isomorphism
  · intro missing word
    exact (isomorphism.withMissing missing).accepts_eq (closed.withMissing missing)
  · exact closed.renumber_relabel increasingOn_number
  · intro T _ _ _ f increasing
    exact closed.renumber_relabel increasing

/-- A case whose states are letters, which their codes name in order. -/
theorem isNumberedIn_renumber_letters :
    let dfa := (((singleton ∅ 'm').setMove 'm' '0' 'z').setMove 'z' '1' 'a').markAccepting 'a'
    dfa.Built ∧ OrderedSet.IncreasingOn Char.toNat dfa.states ∧ dfa.IsNumberedIn dfa.renumber ∧
      dfa.number 'm' = 1 ∧ dfa.renumber.start = 1 ∧
      (dfa.relabel Char.toNat).renumber = dfa.renumber := by
  intro dfa
  have built : dfa.Built :=
    .markAccepting 'a' (.setMove 'z' '1' 'a' (.setMove 'm' '0' 'z' (.singleton ∅ 'm')))
  have increasing : OrderedSet.IncreasingOn Char.toNat dfa.states := by
    intro first second _ _ below
    have before : first < second := compareOfLessAndEq_eq_lt.mp below
    exact Nat.compare_eq_lt.mpr before
  have numbered := built.isNumberedIn_renumber
  have second : dfa.number 'm' = 1 := by decide +kernel
  exact ⟨built, increasing, numbered, second, numbered.isomorphism.start_eq.trans second,
    numbered.renumber_relabel_eq Char.toNat increasing⟩

end PatternAutomata.Dfa
