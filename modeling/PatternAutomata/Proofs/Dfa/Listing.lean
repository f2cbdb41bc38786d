import PatternAutomata.Dfa.Entry
import PatternAutomata.Proofs.Dfa.Completion
import PatternAutomata.Proofs.Dfa.Numbering
import PatternAutomata.Proofs.Ordered.Listed
import PatternAutomata.Proofs.Text.Entry

/-!
# The text of a deterministic automaton is faithful

The text is read back as an automaton with the same states, start, accepting states and moves.  So
texts are equal exactly for automata that agree in these, and between total automata nothing is left
that could differ but what a missing move would mean.
-/

namespace PatternAutomata.Dfa

variable {dfa told first second : Dfa Nat} {word : List Char}

theorem getElem?_getD_rows {source : Nat} {c : Char} :
    (dfa.rows.getD source ∅)[c]? = dfa.target? source c :=
  OrderedMap.getElem?_getD_empty

theorem text_entry (dfa : Dfa Nat) (state : Nat) :
    (dfa.entry state).text = dfa.stateListing state := by
  rw [Text.Entry.text_eq, entry, stateListing, List.flatMap_map]

/-- The text is written entry by entry. -/
theorem listing_eq (dfa : Dfa Nat) :
    dfa.listing = (dfa.states.toList.map dfa.entry).flatMap Text.Entry.text := by
  rw [List.flatMap_map, listing]
  simp only [text_entry]

section Reading

theorem rowOf?_entry (dfa : Dfa Nat) (state : Nat) :
    rowOf? (dfa.entry state) = some (state, dfa.rows.getD state ∅) := by
  have moves : (dfa.entry state).moves.mapM moveOf? = some (dfa.rows.getD state ∅).toList := by
    rw [entry, List.mapM_map]
    exact List.mapM_pure.trans (congrArg some (List.map_id _))
  rw [rowOf?, moves]
  exact congrArg (fun row => some (state, row)) (OrderedMap.ofList_toList _)

theorem mem_moves_entry {state : Nat} {c : Char} :
    c ∈ (dfa.entry state).moves.map (·.1) ↔ ∃ target, dfa.target? state c = some target := by
  have member : c ∈ (dfa.entry state).moves.map (·.1) ↔
      ∃ target, (c, target) ∈ (dfa.rows.getD state ∅).toList := by
    simp [entry]
  rw [member]
  simp only [Std.ExtTreeMap.mem_toList_iff_getElem?_eq_some, getElem?_getD_rows]

/-- The one entry that is marked as the start is found. -/
theorem find?_isStart (member : dfa.start ∈ dfa.states) :
    (dfa.states.toList.map dfa.entry).find? (·.isStart) = some (dfa.entry dfa.start) := by
  have listed : dfa.start ∈ dfa.states.toList := Std.ExtTreeSet.mem_toList.mpr member
  have found : (dfa.states.toList.find? (· == dfa.start)).isSome = true := by
    rw [List.find?_isSome]
    exact ⟨dfa.start, listed, beq_self_eq_true _⟩
  obtain ⟨state, found⟩ := Option.isSome_iff_exists.mp found
  have same : state = dfa.start := by
    simpa using List.find?_some found
  rw [List.find?_map, show ((·.isStart) ∘ dfa.entry) = (· == dfa.start) from rfl, found, same]
  rfl

theorem ofEntries?_eq (member : dfa.start ∈ dfa.states) :
    ofEntries? (dfa.states.toList.map dfa.entry) =
      some (described dfa.start (dfa.states.toList.map dfa.entry)
        (dfa.states.toList.map fun state => (state, dfa.rows.getD state ∅))) := by
  have each : rowOf? ∘ dfa.entry = fun state => pure (state, dfa.rows.getD state ∅) :=
    funext (rowOf?_entry dfa)
  have rows : (dfa.states.toList.map dfa.entry).mapM rowOf? =
      some (dfa.states.toList.map fun state => (state, dfa.rows.getD state ∅)) := by
    rw [List.mapM_map, each, List.mapM_pure]
    rfl
  rw [ofEntries?, find?_isStart member, rows]
  rfl

/-- The entries of an automaton describe what its text tells of it. -/
theorem Closed.isToldBy_described (closed : dfa.Closed) :
    dfa.IsToldBy (described dfa.start (dfa.states.toList.map dfa.entry)
      (dfa.states.toList.map fun state => (state, dfa.rows.getD state ∅))) where
  states_eq := by
    have names : (dfa.states.toList.map dfa.entry).map (·.state) = dfa.states.toList := by
      rw [List.map_map]
      exact List.map_id _
    rw [described, names]
    exact OrderedSet.ofList_toList _
  start_eq := rfl
  accepting_eq := by
    apply Std.ExtTreeSet.ext_mem
    intro state
    rw [described, OrderedSet.mem_ofList, List.filter_map, List.map_map]
    simp only [List.mem_map, List.mem_filter, Std.ExtTreeSet.mem_toList, Function.comp_apply]
    constructor
    · rintro ⟨_, ⟨_, accepts⟩, rfl⟩
      exact Std.ExtTreeSet.mem_iff_contains.mpr accepts
    · intro member
      exact ⟨state, ⟨closed.accepting_mem state member, Std.ExtTreeSet.mem_iff_contains.mp member⟩,
        rfl⟩
  target?_eq source c := by
    have distinct : (dfa.states.toList.map fun state => (state, dfa.rows.getD state ∅)).Pairwise
        fun first second => ¬compare first.1 second.1 = .eq := by
      rw [List.pairwise_map]
      exact Std.ExtTreeSet.distinct_toList (t := dfa.states)
    apply Option.ext
    intro target
    rw [target?_eq_some_iff]
    simp only [described, OrderedMap.getElem?_ofList_iff distinct, List.mem_map, Prod.mk.injEq]
    constructor
    · rintro ⟨_, ⟨_, _, rfl, rfl⟩, move⟩
      exact getElem?_getD_rows.symm.trans move
    · intro move
      have known : source ∈ dfa.states.toList :=
        Std.ExtTreeSet.mem_toList.mpr (closed.source_mem_of_target? move)
      exact ⟨_, ⟨source, known, rfl, rfl⟩, getElem?_getD_rows.trans move⟩
  mem_alphabet_iff c := by
    rw [described, OrderedSet.mem_ofList, List.flatMap_map]
    simp only [List.mem_flatMap, mem_moves_entry, Std.ExtTreeSet.mem_toList]
    constructor
    · rintro ⟨source, _, target, move⟩
      exact ⟨source, target, move⟩
    · rintro ⟨source, target, move⟩
      exact ⟨source, closed.source_mem_of_target? move, target, move⟩
  missing_eq := rfl

/-- The text of a closed automaton is read back as what it tells of the automaton. -/
theorem Closed.exists_isToldBy (closed : dfa.Closed) :
    ∃ told, ofListing? dfa.listing = some told ∧ dfa.IsToldBy told := by
  refine ⟨_, ?_, closed.isToldBy_described⟩
  rw [ofListing?, listing_eq, Text.readEntries?_flatMap_text]
  exact ofEntries?_eq closed.start_mem

end Reading

/-- The text shows nothing but the states, the start, the accepting states and the moves. -/
theorem listing_congr
    (states : first.states = second.states) (start : first.start = second.start)
    (accepting : first.accepting = second.accepting)
    (moves : ∀ source c, first.target? source c = second.target? source c) :
    first.listing = second.listing := by
  have rows : ∀ state, first.rows.getD state ∅ = second.rows.getD state ∅ := by
    intro state
    apply Std.ExtTreeMap.ext_getElem?
    intro c
    rw [getElem?_getD_rows, getElem?_getD_rows, moves]
  have entries : first.entry = second.entry := by
    funext state
    rw [entry, entry, start, isAccepting, isAccepting, accepting, rows]
  rw [listing_eq, listing_eq, states, entries]

section Total

variable {S : Type} [Ord S] [Std.TransOrd S] {dfa : Dfa S} {state : S}

theorem Closed.mem_states_of_reached (closed : dfa.Closed) (reached : dfa.Reached state) :
    state ∈ dfa.states := by
  induction reached with
  | start => exact closed.start_mem
  | move _ move _ => exact closed.target_mem_of_target? move

theorem Total.whereReached (total : dfa.Total) (closed : dfa.Closed) : dfa.TotalWhereReached :=
  fun state c reached char => total state c (closed.mem_states_of_reached reached) char

theorem accepts_eq_isAccepting
    {word : List Char} {final : S} (spellable : ∀ c ∈ word, c ∈ dfa.alphabet)
    (follows : dfa.follow dfa.start word = some final) :
    dfa.accepts word = dfa.isAccepting final :=
  have withIts : (dfa.withMissing dfa.missing).accepts word = dfa.isAccepting final :=
    accepts_of_follow spellable follows
  withIts

/-- Totality does not depend on what the states are called. -/
theorem OrderIsomorphism.total
    {T : Type} [Ord T] [Std.TransOrd T] {f : S → T} {other : Dfa T}
    (isomorphism : OrderIsomorphism f dfa other) (total : dfa.Total) : other.Total := by
  intro name c member char
  obtain ⟨source, known, rfl⟩ := (isomorphism.mem_states_iff name).mp member
  rw [isomorphism.target?_eq source c known, Option.isSome_map]
  exact total source c known (isomorphism.alphabet_eq ▸ char)

end Total

namespace IsToldBy

/-- Automata with one text agree in everything that it tells. -/
theorem agree (tells : first.IsToldBy told) (tellsOther : second.IsToldBy told) :
    first.states = second.states ∧ first.start = second.start ∧
      first.accepting = second.accepting ∧
        ∀ source c, first.target? source c = second.target? source c := by
  refine ⟨?_, ?_, ?_, ?_⟩
  · rw [← tells.states_eq, tellsOther.states_eq]
  · rw [← tells.start_eq, tellsOther.start_eq]
  · rw [← tells.accepting_eq, tellsOther.accepting_eq]
  · intro source c
    rw [← tells.target?_eq, tellsOther.target?_eq]

/-- A total automaton is told with its whole alphabet. -/
theorem alphabet_eq (tells : dfa.IsToldBy told) (closed : dfa.Closed) (total : dfa.Total) :
    told.alphabet = dfa.alphabet := by
  apply Std.ExtTreeSet.ext_mem
  intro c
  rw [tells.mem_alphabet_iff]
  constructor
  · rintro ⟨source, target, move⟩
    obtain ⟨row, present, entry⟩ := target?_eq_some_iff.mp move
    exact (closed.row_closed source row present).char_mem c target entry
  · intro char
    have moves := total dfa.start c closed.start_mem char
    exact ⟨dfa.start, Option.isSome_iff_exists.mp moves⟩

theorem follow_eq (tells : dfa.IsToldBy told) (state : Nat) (word : List Char) :
    told.follow state word = dfa.follow state word := by
  have same : told.target? = dfa.target? := by
    funext source c
    exact tells.target?_eq source c
  rw [follow, follow, same]

/-- A total automaton accepts the words that its text tells of. -/
theorem accepts_eq (tells : dfa.IsToldBy told) (closed : dfa.Closed) (total : dfa.Total) :
    told.accepts word = dfa.accepts word := by
  have alphabet := tells.alphabet_eq closed total
  apply accepts_eq_of_spellable alphabet
  intro spellable
  obtain ⟨final, follows⟩ := (total.whereReached closed).follows .start spellable
  have toldFollows : told.follow told.start word = some final := by
    rw [tells.start_eq, tells.follow_eq, follows]
  calc
    told.accepts word = told.isAccepting final :=
      accepts_eq_isAccepting (alphabet ▸ spellable) toldFollows
    _ = dfa.isAccepting final := by rw [isAccepting, isAccepting, tells.accepting_eq]
    _ = dfa.accepts word := (accepts_eq_isAccepting spellable follows).symm

end IsToldBy

/-- The texts of automata that the operations build are equal exactly if the automata have the same
states, start, accepting states and moves, whatever characters the moves carry.  Total automata that
mean the same by a missing move are then equal. -/
theorem Built.listing_eq_iff (firstBuilt : first.Built) (secondBuilt : second.Built) :
    (first.listing = second.listing ↔
      first.states = second.states ∧ first.start = second.start ∧
        first.accepting = second.accepting ∧
          ∀ source c, first.target? source c = second.target? source c) ∧
      (first.Total → second.Total → first.missing = second.missing →
        first.listing = second.listing → first = second) := by
  have firstClosed := firstBuilt.closed
  have secondClosed := secondBuilt.closed
  obtain ⟨told, read, tells⟩ := firstClosed.exists_isToldBy
  have tellsOther : first.listing = second.listing → second.IsToldBy told := by
    intro same
    obtain ⟨other, readOther, tellsOther⟩ := secondClosed.exists_isToldBy
    rw [← same, read] at readOther
    cases readOther
    exact tellsOther
  constructor
  · constructor
    · intro same
      exact tells.agree (tellsOther same)
    · rintro ⟨states, start, accepting, moves⟩
      exact listing_congr states start accepting moves
  · intro firstTotal secondTotal missing same
    obtain ⟨states, start, accepting, moves⟩ := tells.agree (tellsOther same)
    apply firstClosed.ext secondClosed
    · rw [← tells.alphabet_eq firstClosed firstTotal,
        (tellsOther same).alphabet_eq secondClosed secondTotal]
    · intro state
      rw [states]
    · exact start
    · intro source c target
      rw [moves]
    · intro state
      rw [accepting]
    · exact missing

/-- A case with moves on a line feed and on an angle bracket.  An alphabet that goes beyond the moves
and what a missing move means do not show; where no move is missing there is nothing to hide. -/
theorem Built.listing_eq_iff_feed :
    let first := (((Dfa.singleton ∅ 0).setMove 0 '\n' 1).setMove 1 '>' 0).markAccepting 1
    let second := ((((Dfa.singleton {'x'} 0).setMove 1 '>' 1).setMove 1 '>' 0).setMove
      0 '\n' 1).markAccepting 1
    let third := ((Dfa.singleton ∅ 0).setMove 0 '\n' 1).setMove 1 '\n' 0
    let fourth := (((Dfa.singleton ∅ 0).setMove 1 '\n' 1).setMove 0 '\n' 1).setMove 1 '\n' 0
    first.Built ∧ second.Built ∧ first.listing = second.listing ∧ first ≠ second ∧
      (∀ source c, first.target? source c = second.target? source c) ∧
        third.Built ∧ fourth.Built ∧ third.Total ∧ fourth.Total ∧ third = fourth := by
  intro first second third fourth
  have builtFirst : first.Built :=
    .markAccepting 1 (.setMove 1 '>' 0 (.setMove 0 '\n' 1 (.singleton ∅ 0)))
  have builtSecond : second.Built :=
    .markAccepting 1 (.setMove 0 '\n' 1 (.setMove 1 '>' 0 (.setMove 1 '>' 1 (.singleton _ 0))))
  have builtThird : third.Built := .setMove 1 '\n' 0 (.setMove 0 '\n' 1 (.singleton ∅ 0))
  have builtFourth : fourth.Built :=
    .setMove 1 '\n' 0 (.setMove 0 '\n' 1 (.setMove 1 '\n' 1 (.singleton ∅ 0)))
  have alike : first.listing = second.listing := by decide +kernel
  have different : first ≠ second := by decide +kernel
  obtain ⟨_, _, _, moves⟩ := (Built.listing_eq_iff builtFirst builtSecond).1.mp alike
  have thirdTotal : third.Total := by decide +kernel
  have fourthTotal : fourth.Total := by decide +kernel
  have equal := (Built.listing_eq_iff builtThird builtFourth).2 thirdTotal fourthTotal rfl
    (by decide +kernel)
  exact ⟨builtFirst, builtSecond, alike, different, moves, builtThird, builtFourth, thirdTotal,
    fourthTotal, equal⟩

end PatternAutomata.Dfa
