import Mathlib.Data.List.Induction
import PatternAutomata.Dfa.Completion
import PatternAutomata.Proofs.Dfa.Reading
import PatternAutomata.Proofs.Dfa.Relabeling

/-!
# Missing moves are moves of a completion

Filling in moves touches only the pairs of a state and a character that have none.  So what an
automaton makes of a word is what a total automaton makes of it: one with loops if a missing move
keeps the state, and one with a sink if it rejects the word.
-/

namespace PatternAutomata.Dfa

section Fill

variable {S : Type} [Ord S] [Std.TransOrd S]

/-- The characters of the alphabet on which a state has no move. -/
def gaps (dfa : Dfa S) (source : S) : List Char :=
  dfa.alphabet.toList.filter fun c => (dfa.target? source c).isNone

/-- Fills the gaps of a state of the first automaton in the second. -/
def fillGaps (dfa : Dfa S) (target : S → S) (filled : Dfa S) (source : S) : Dfa S :=
  filled.setMoves source (fun _ => target source) (dfa.gaps source)

/-- The automaton after the gaps of the given states have been filled. -/
structure FilledAt (dfa : Dfa S) (target : S → S) (sources : List S) (filled : Dfa S) : Prop where
  alphabet_eq : filled.alphabet = dfa.alphabet
  states_eq : filled.states = dfa.states
  start_eq : filled.start = dfa.start
  accepting_eq : filled.accepting = dfa.accepting
  target?_of_gap : ∀ source c, source ∈ sources → c ∈ dfa.gaps source →
    filled.target? source c = some (target source)
  target?_of_not_gap : ∀ source c, source ∉ sources ∨ c ∉ dfa.gaps source →
    filled.target? source c = dfa.target? source c

variable {dfa filled : Dfa S} {target : S → S} {source state : S} {sources : List S} {c : Char}

theorem mem_gaps : c ∈ dfa.gaps source ↔ c ∈ dfa.alphabet ∧ dfa.target? source c = none := by
  rw [gaps, List.mem_filter, Std.ExtTreeSet.mem_toList, Option.isNone_iff_eq_none]

theorem fill_eq_foldl : dfa.fill target = dfa.states.toList.foldl (dfa.fillGaps target) dfa := by
  rw [fill]
  congr 1
  funext filled source
  rw [fillGaps, setMoves, gaps, List.foldl_filter]

variable [Std.LawfulEqOrd S]

namespace FilledAt

omit [Std.LawfulEqOrd S] in
theorem initial (dfa : Dfa S) (target : S → S) : dfa.FilledAt target [] dfa where
  alphabet_eq := rfl
  states_eq := rfl
  start_eq := rfl
  accepting_eq := rfl
  target?_of_gap _ _ member := absurd member List.not_mem_nil
  target?_of_not_gap _ _ _ := rfl

theorem fillGaps
    (partly : dfa.FilledAt target sources filled) (member : source ∈ dfa.states)
    (targetMember : target source ∈ dfa.states) :
    dfa.FilledAt target (sources ++ [source]) (dfa.fillGaps target filled source) := by
  constructor
  · apply Std.ExtTreeSet.ext_mem
    intro c
    rw [Dfa.fillGaps, mem_alphabet_setMoves, partly.alphabet_eq]
    exact or_iff_left_of_imp fun gap => (mem_gaps.mp gap).1
  · apply Std.ExtTreeSet.ext_mem
    intro state
    rw [Dfa.fillGaps, mem_states_setMoves, partly.states_eq]
    apply or_iff_left_of_imp
    intro named
    obtain ⟨c, _, rfl | rfl⟩ := named
    · exact member
    · exact targetMember
  · exact start_setMoves.trans partly.start_eq
  · exact accepting_setMoves.trans partly.accepting_eq
  · intro state c among gap
    by_cases same : source = state
    · subst same
      exact target?_setMoves_of_mem gap
    · have earlier : state ∈ sources := by
        rcases List.mem_append.mp among with earlier | last
        · exact earlier
        · exact absurd (List.mem_singleton.mp last).symm same
      rw [Dfa.fillGaps, target?_setMoves_of_ne (.inl same)]
      exact partly.target?_of_gap state c earlier gap
  · intro state c absent
    have apart : source ≠ state ∨ c ∉ dfa.gaps source := by
      by_cases same : source = state
      · subst same
        exact .inr (absent.resolve_left fun outside => outside (by simp))
      · exact .inl same
    have before : state ∉ sources ∨ c ∉ dfa.gaps state :=
      absent.imp_left fun outside earlier => outside (List.mem_append_left _ earlier)
    rw [Dfa.fillGaps, target?_setMoves_of_ne apart]
    exact partly.target?_of_not_gap state c before

theorem foldl
    (sources : List S) (within : ∀ source ∈ sources, source ∈ dfa.states)
    (targetsWithin : ∀ source ∈ sources, target source ∈ dfa.states) :
    dfa.FilledAt target sources (sources.foldl (dfa.fillGaps target) dfa) := by
  induction sources using List.reverseRecOn with
  | nil => exact .initial dfa target
  | append_singleton sources source ih =>
      rw [List.foldl_append]
      have last : source ∈ sources ++ [source] := by simp
      have before := ih (fun other member => within other (List.mem_append_left _ member))
        (fun other member => targetsWithin other (List.mem_append_left _ member))
      exact before.fillGaps (within source last) (targetsWithin source last)

end FilledAt

/-- After all states have been filled, no move is missing, and the ones that were there stay. -/
theorem filledAt_fill (targetsWithin : ∀ source, source ∈ dfa.states → target source ∈ dfa.states) :
    dfa.FilledAt target dfa.states.toList (dfa.fill target) := by
  rw [fill_eq_foldl]
  apply FilledAt.foldl
  · intro source listed
    exact Std.ExtTreeSet.mem_toList.mp listed
  · intro source listed
    exact targetsWithin source (Std.ExtTreeSet.mem_toList.mp listed)

theorem target?_fill
    (targetsWithin : ∀ source, source ∈ dfa.states → target source ∈ dfa.states)
    (member : source ∈ dfa.states) (char : c ∈ dfa.alphabet) :
    (dfa.fill target).target? source c = some ((dfa.target? source c).getD (target source)) := by
  have filled := filledAt_fill targetsWithin
  cases move : dfa.target? source c with
  | none =>
      exact filled.target?_of_gap source c (Std.ExtTreeSet.mem_toList.mpr member)
        (mem_gaps.mpr ⟨char, move⟩)
  | some goal =>
      have noGap : c ∉ dfa.gaps source := by
        intro gap
        rw [(mem_gaps.mp gap).2] at move
        cases move
      exact (filled.target?_of_not_gap source c (.inr noGap)).trans move

theorem total_fill
    (targetsWithin : ∀ source, source ∈ dfa.states → target source ∈ dfa.states) :
    (dfa.fill target).Total := by
  have filled := filledAt_fill targetsWithin
  intro source c member char
  rw [filled.states_eq] at member
  rw [filled.alphabet_eq] at char
  rw [target?_fill targetsWithin member char]
  rfl

end Fill

section Fillings

variable {S : Type} [Ord S] [Std.TransOrd S] [Std.LawfulEqOrd S] {dfa : Dfa S}

theorem completesWithLoops_fillWithLoops : dfa.CompletesWithLoops dfa.fillWithLoops := by
  have within : ∀ source, source ∈ dfa.states → id source ∈ dfa.states :=
    fun _ member => member
  have filled := filledAt_fill within
  constructor
  · exact total_fill within
  · exact filled.alphabet_eq
  · exact filled.states_eq
  · exact filled.start_eq
  · exact filled.accepting_eq
  · intro source c member char
    exact target?_fill within member char

/-- The automaton with a fresh state beside its own. -/
def widen (dfa : Dfa S) : Dfa (Option S) :=
  { dfa.relabel some with states := (dfa.relabel some).states.insert none }

/-- The fresh state has no moves, and the others have those that they had. -/
theorem Closed.target?_widen (closed : dfa.Closed) {name : Option S} {c : Char} :
    dfa.widen.target? name c = name.bind fun source => (dfa.target? source c).map some := by
  have apart : OrderedSet.InjectiveOn some dfa.states :=
    fun _ _ _ _ same => Option.some.inj same
  apply Option.ext
  intro goal
  apply (closed.target?_relabel_iff apart).trans
  simp only [Option.bind_eq_some_iff, Option.map_eq_some_iff]
  constructor
  · intro moved
    obtain ⟨source, target, move, same, named⟩ := moved
    exact ⟨source, same.symm, target, move, named⟩
  · intro moved
    obtain ⟨source, same, target, move, named⟩ := moved
    exact ⟨source, target, move, same.symm, named⟩

theorem Closed.completesWithSink_fillWithSink (closed : dfa.Closed) :
    dfa.CompletesWithSink dfa.fillWithSink := by
  have sink : none ∈ dfa.widen.states := OrderedSet.mem_insert.mpr (.inl rfl)
  have member : ∀ state, some state ∈ dfa.widen.states ↔ state ∈ dfa.states := by
    intro state
    apply OrderedSet.mem_insert.trans
    simp [Dfa.relabel, OrderedSet.mem_image]
  have within : ∀ source, source ∈ dfa.widen.states →
      (fun _ => none) source ∈ dfa.widen.states := fun _ _ => sink
  have filled : dfa.widen.FilledAt (fun _ => none) dfa.widen.states.toList dfa.fillWithSink :=
    filledAt_fill within
  constructor
  · exact total_fill within
  · exact filled.alphabet_eq
  · exact filled.states_eq ▸ sink
  · intro state
    rw [filled.states_eq]
    exact member state
  · exact filled.start_eq
  · rw [filled.accepting_eq]
    simp [widen, Dfa.relabel, OrderedSet.mem_image]
  · intro state
    rw [filled.accepting_eq]
    simp [widen, Dfa.relabel, OrderedSet.mem_image]
  · intro c char
    apply (target?_fill within sink char).trans
    rw [closed.target?_widen]
    rfl
  · intro source c among char
    apply (target?_fill within ((member source).mpr among) char).trans
    rw [closed.target?_widen, Option.bind_some]
    cases dfa.target? source c with
    | none => rfl
    | some target => rfl

end Fillings

section Runs

variable {S : Type} [Ord S] [Std.TransOrd S] {dfa : Dfa S} {state : S} {c : Char}
  {word : List Char} {missing : MissingMove}

namespace CompletesWithLoops

variable {filled : Dfa S}

theorem withMissing (completes : dfa.CompletesWithLoops filled) :
    dfa.CompletesWithLoops (filled.withMissing missing) where
  total := completes.total
  alphabet_eq := completes.alphabet_eq
  states_eq := completes.states_eq
  start_eq := completes.start_eq
  accepting_eq := completes.accepting_eq
  target?_eq := completes.target?_eq

variable (completes : dfa.CompletesWithLoops filled) (closed : dfa.Closed)

include completes closed

theorem run_eq (member : state ∈ dfa.states) (spellable : ∀ c ∈ word, c ∈ dfa.alphabet) :
    filled.run state word = (dfa.withMissing .stay).run state word := by
  induction word generalizing state with
  | nil => rfl
  | cons c word ih =>
      obtain ⟨char, later⟩ := List.forall_mem_cons.mp spellable
      have moves := completes.target?_eq state c member char
      have next : (dfa.target? state c).getD state ∈ dfa.states := by
        cases move : dfa.target? state c with
        | none => exact member
        | some target => exact closed.target_mem_of_target? move
      rw [run_cons, run_cons, advance_stay char,
        advance_of_target? (completes.alphabet_eq ▸ char) moves]
      exact ih next later

theorem accepts_eq : filled.accepts word = (dfa.withMissing .stay).accepts word := by
  apply accepts_eq_of_spellable
  · exact completes.alphabet_eq
  intro spellable
  have reads := completes.run_eq closed closed.start_mem spellable
  rw [accepts, accepts, completes.start_eq, reads]
  apply congrArg fun accepting => Option.any accepting _
  funext final
  rw [isAccepting, completes.accepting_eq]
  rfl

end CompletesWithLoops

namespace CompletesWithSink

variable {filled : Dfa (Option S)}

theorem withMissing (completes : dfa.CompletesWithSink filled) :
    dfa.CompletesWithSink (filled.withMissing missing) where
  total := completes.total
  alphabet_eq := completes.alphabet_eq
  sink_mem := completes.sink_mem
  mem_states := completes.mem_states
  start_eq := completes.start_eq
  sink_not_accepting := completes.sink_not_accepting
  mem_accepting := completes.mem_accepting
  target?_sink := completes.target?_sink
  target?_eq := completes.target?_eq

variable (completes : dfa.CompletesWithSink filled)

include completes

theorem run_sink (spellable : ∀ c ∈ word, c ∈ dfa.alphabet) :
    filled.run none word = some none := by
  induction word with
  | nil => rfl
  | cons c word ih =>
      obtain ⟨char, later⟩ := List.forall_mem_cons.mp spellable
      rw [run_cons,
        advance_of_target? (completes.alphabet_eq ▸ char) (completes.target?_sink c char)]
      exact ih later

/-- The sink stands for the readings that miss a move. -/
theorem run_eq
    (closed : dfa.Closed) (member : state ∈ dfa.states)
    (spellable : ∀ c ∈ word, c ∈ dfa.alphabet) :
    filled.run (some state) word = some (dfa.follow state word) := by
  induction word generalizing state with
  | nil => rfl
  | cons c word ih =>
      obtain ⟨char, later⟩ := List.forall_mem_cons.mp spellable
      have moves := completes.target?_eq state c member char
      rw [run_cons, follow_cons, advance_of_target? (completes.alphabet_eq ▸ char) moves]
      cases move : dfa.target? state c with
      | none => exact completes.run_sink later
      | some target => exact ih (closed.target_mem_of_target? move) later

theorem isAccepting_eq {option : Option S} :
    filled.isAccepting option = option.any dfa.isAccepting := by
  cases option with
  | none =>
      rw [isAccepting, Option.any_none, ← Bool.not_eq_true, ← Std.ExtTreeSet.mem_iff_contains]
      exact completes.sink_not_accepting
  | some state =>
      rw [isAccepting, Option.any_some, isAccepting, Bool.eq_iff_iff,
        ← Std.ExtTreeSet.mem_iff_contains, ← Std.ExtTreeSet.mem_iff_contains]
      exact completes.mem_accepting state

theorem accepts_eq (closed : dfa.Closed) :
    filled.accepts word = (dfa.withMissing .reject).accepts word := by
  apply accepts_eq_of_spellable
  · exact completes.alphabet_eq
  intro (spellable : ∀ c ∈ word, c ∈ dfa.alphabet)
  calc
    filled.accepts word = (filled.run (some dfa.start) word).any filled.isAccepting := by
      rw [accepts, completes.start_eq]
    _ = filled.isAccepting (dfa.follow dfa.start word) := by
      rw [completes.run_eq closed closed.start_mem spellable, Option.any_some]
    _ = (dfa.follow dfa.start word).any dfa.isAccepting := completes.isAccepting_eq
    _ = ((dfa.withMissing .reject).run dfa.start word).any dfa.isAccepting := by
      rw [run_reject spellable]
    _ = (dfa.withMissing .reject).accepts word := rfl

end CompletesWithSink

theorem accepts_stay_of_reject (accepted : (dfa.withMissing .reject).accepts word = true) :
    (dfa.withMissing .stay).accepts word = true := by
  have spellable : ∀ c ∈ word, c ∈ (dfa.withMissing .reject).alphabet :=
    spellable_of_accepts accepted
  obtain ⟨final, reads, accepting⟩ := Option.any_eq_true _ _ |>.mp accepted
  have follows : dfa.follow dfa.start word = some final :=
    (run_reject spellable).symm.trans reads
  exact (accepts_of_follow spellable follows).trans accepting

theorem TotalWhereReached.follows
    (total : dfa.TotalWhereReached) (reached : dfa.Reached state)
    (spellable : ∀ c ∈ word, c ∈ dfa.alphabet) :
    ∃ final, dfa.follow state word = some final := by
  induction word generalizing state with
  | nil => exact ⟨state, rfl⟩
  | cons c word ih =>
      obtain ⟨char, later⟩ := List.forall_mem_cons.mp spellable
      obtain ⟨next, move⟩ := Option.isSome_iff_exists.mp (total state c reached char)
      obtain ⟨final, rest⟩ := ih (reached.move move) later
      refine ⟨final, ?_⟩
      rw [follow_cons, move]
      exact rest

theorem TotalWhereReached.accepts_eq (total : dfa.TotalWhereReached) :
    (dfa.withMissing .stay).accepts word = (dfa.withMissing .reject).accepts word := by
  apply accepts_eq_of_spellable
  · rfl
  intro (spellable : ∀ c ∈ word, c ∈ dfa.alphabet)
  obtain ⟨final, follows⟩ := total.follows .start spellable
  rw [accepts_of_follow spellable follows, accepts_of_follow spellable follows]

end Runs

/-- The decision about missing moves is a choice between completions. -/
theorem Built.decidedByCompletions
    {S : Type} [Ord S] [Std.TransOrd S] [Std.LawfulEqOrd S] {dfa : Dfa S} (built : dfa.Built) :
    dfa.DecidedByCompletions := by
  have closed := built.closed
  have loops : dfa.CompletesWithLoops dfa.fillWithLoops := completesWithLoops_fillWithLoops
  have sink : dfa.CompletesWithSink dfa.fillWithSink := closed.completesWithSink_fillWithSink
  have acceptsLoops : ∀ missing word,
      (dfa.withMissing .stay).accepts word = (dfa.fillWithLoops.withMissing missing).accepts word :=
    fun missing word => (loops.withMissing.accepts_eq closed).symm
  have acceptsSink : ∀ missing word,
      (dfa.withMissing .reject).accepts word = (dfa.fillWithSink.withMissing missing).accepts word :=
    fun missing word => (sink.withMissing.accepts_eq closed).symm
  constructor
  · exact loops
  · exact sink
  · intro word
    rw [acceptsLoops .reject word]
    exact accepts_reject_iff
  · intro word
    rw [acceptsSink .reject word]
    exact accepts_reject_iff
  · exact acceptsLoops
  · exact acceptsSink
  · intro word accepted
    exact accepts_stay_of_reject accepted
  · intro total word
    exact total.accepts_eq
  · intro missing word c occurs foreign
    exact accepts_of_foreign occurs foreign

/-- A case in which the decision shows on a word that misses a move on the way, and one in which the
only state without moves is never reached. -/
theorem Built.decidedByCompletions_partial :
    let chain := ((Dfa.singleton ∅ 0).setMove 0 'a' 1).setMove 1 'b' 2
    let ends := chain.markAccepting 2
    let around := ((Dfa.singleton ∅ 0).setMove 0 'a' 0).markAccepting 7
    ends.DecidedByCompletions ∧ ¬ends.TotalWhereReached ∧
      (ends.withMissing .stay).accepts ['a', 'a', 'b'] = true ∧
      (ends.withMissing .reject).accepts ['a', 'a', 'b'] = false ∧
      ends.fillWithLoops.LeadsToAccepting ['a', 'a', 'b'] ∧
      ¬ends.fillWithSink.LeadsToAccepting ['a', 'a', 'b'] ∧
      around.DecidedByCompletions ∧ around.TotalWhereReached ∧ ¬around.Total := by
  intro chain ends around
  have builtEnds : ends.Built :=
    .markAccepting 2 (.setMove 1 'b' 2 (.setMove 0 'a' 1 (.singleton ∅ 0)))
  have builtAround : around.Built :=
    .markAccepting 7 (.setMove 0 'a' 0 (.singleton ∅ 0))
  have stays : (ends.withMissing .stay).accepts ['a', 'a', 'b'] = true := by decide
  have rejects : (ends.withMissing .reject).accepts ['a', 'a', 'b'] = false := by decide
  have decided := builtEnds.decidedByCompletions
  have notLed : ¬ends.fillWithSink.LeadsToAccepting ['a', 'a', 'b'] := by
    rw [← decided.accepts_reject_iff, rejects]
    exact Bool.false_ne_true
  refine ⟨decided, ?_, stays, rejects, (decided.accepts_stay_iff _).mp stays, notLed,
    builtAround.decidedByCompletions, ?_, ?_⟩
  · intro total
    have equal := decided.agree total ['a', 'a', 'b']
    rw [stays, rejects] at equal
    cases equal
  · intro state c reached char
    have only : 'a' = c := by
      simpa [around, Dfa.markAccepting, Dfa.setMove, Dfa.singleton] using char
    have home : state = 0 := by
      induction reached with
      | start => rfl
      | @move source target d _ move ih =>
          by_cases same : 'a' = d
          · subst same ih
            exact (Option.some.inj (target?_setMove_self.symm.trans move)).symm
          · have missed : around.target? source d = none :=
              target?_setMove_of_ne (.inr same)
            rw [missed] at move
            cases move
    subst home only
    decide
  · intro total
    have moved := total 7 'a' (by decide) (by decide)
    revert moved
    decide

end PatternAutomata.Dfa
