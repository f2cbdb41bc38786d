import PatternAutomata.Dfa.Moves

/-!
# Completions

Total automata that say in moves what the decision about missing moves says in words.  What a
completion has to be is told by its parts, apart from the loops that add the moves.
-/

namespace PatternAutomata.Dfa

variable {S T : Type} [Ord S] [Std.TransOrd S] [Ord T] [Std.TransOrd T]

/-- Sets a move for every state and every character of the alphabet that have none. -/
def fill (target : S → S) (dfa : Dfa S) : Dfa S :=
  dfa.states.toList.foldl
    (fun filled source =>
      dfa.alphabet.toList.foldl
        (fun filled c =>
          if (dfa.target? source c).isNone then filled.setMove source c (target source) else filled)
        filled)
    dfa

/-- Every missing move becomes a loop. -/
def fillWithLoops (dfa : Dfa S) : Dfa S := dfa.fill id

/-- Every missing move leads to a fresh state that accepts nothing and is never left. -/
def fillWithSink (dfa : Dfa S) : Dfa (Option S) :=
  let widened := dfa.relabel some
  { widened with states := widened.states.insert none }.fill fun _ => none

/-- No move is missing. -/
def Total (dfa : Dfa S) : Prop :=
  ∀ source c, source ∈ dfa.states → c ∈ dfa.alphabet → (dfa.target? source c).isSome = true

instance [Std.LawfulEqOrd S] (dfa : Dfa S) : Decidable dfa.Total :=
  decidable_of_iff
    ((dfa.states.toList.all fun source =>
      dfa.alphabet.toList.all fun c => (dfa.target? source c).isSome) = true) (by
    simp only [List.all_eq_true, Std.ExtTreeSet.mem_toList]
    constructor
    · intro moves source c member char
      exact moves source member c char
    · intro total source member c char
      exact total source c member char)

/-- The second automaton is the first with a loop for every missing move. -/
structure CompletesWithLoops (dfa filled : Dfa S) : Prop where
  total : filled.Total
  alphabet_eq : filled.alphabet = dfa.alphabet
  states_eq : filled.states = dfa.states
  start_eq : filled.start = dfa.start
  accepting_eq : filled.accepting = dfa.accepting
  target?_eq : ∀ source c, source ∈ dfa.states → c ∈ dfa.alphabet →
    filled.target? source c = some ((dfa.target? source c).getD source)

/-- The second automaton is the first with a fresh state, which is no accepting one and is never
left; it is where every missing move leads. -/
structure CompletesWithSink (dfa : Dfa S) (filled : Dfa (Option S)) : Prop where
  total : filled.Total
  alphabet_eq : filled.alphabet = dfa.alphabet
  sink_mem : none ∈ filled.states
  mem_states : ∀ state, some state ∈ filled.states ↔ state ∈ dfa.states
  start_eq : filled.start = some dfa.start
  sink_not_accepting : none ∉ filled.accepting
  mem_accepting : ∀ state, some state ∈ filled.accepting ↔ state ∈ dfa.accepting
  target?_sink : ∀ c, c ∈ dfa.alphabet → filled.target? none c = some none
  target?_eq : ∀ source c, source ∈ dfa.states → c ∈ dfa.alphabet →
    filled.target? (some source) c = some (dfa.target? source c)

/-- Moves lead from the start to the state. -/
inductive Reached (dfa : Dfa S) : S → Prop where
  | start : dfa.Reached dfa.start
  | move {source target : S} {c : Char} :
      dfa.Reached source → dfa.target? source c = some target → dfa.Reached target

/-- No move is missing where the automaton can come. -/
def TotalWhereReached (dfa : Dfa S) : Prop :=
  ∀ state c, dfa.Reached state → c ∈ dfa.alphabet → (dfa.target? state c).isSome = true

/-- The word is over the alphabet, and its moves lead from the start to an accepting state. -/
def LeadsToAccepting (dfa : Dfa S) (word : List Char) : Prop :=
  (∀ c ∈ word, c ∈ dfa.alphabet) ∧
    ∃ final, dfa.follow dfa.start word = some final ∧ final ∈ dfa.accepting

/-- What the decision about missing moves does to the accepted words: the automaton accepts what its
completion does, with loops if missing moves are skipped and with a sink if they reject.  A
completion accepts where its moves lead, for it has no use for the decision. -/
structure DecidedByCompletions (dfa : Dfa S) : Prop where
  loops : dfa.CompletesWithLoops dfa.fillWithLoops
  sink : dfa.CompletesWithSink dfa.fillWithSink
  accepts_stay_iff : ∀ word,
    (dfa.withMissing .stay).accepts word = true ↔ dfa.fillWithLoops.LeadsToAccepting word
  accepts_reject_iff : ∀ word,
    (dfa.withMissing .reject).accepts word = true ↔ dfa.fillWithSink.LeadsToAccepting word
  accepts_stay : ∀ missing word,
    (dfa.withMissing .stay).accepts word = (dfa.fillWithLoops.withMissing missing).accepts word
  accepts_reject : ∀ missing word,
    (dfa.withMissing .reject).accepts word = (dfa.fillWithSink.withMissing missing).accepts word
  stay_of_reject : ∀ word,
    (dfa.withMissing .reject).accepts word = true → (dfa.withMissing .stay).accepts word = true
  agree : dfa.TotalWhereReached → ∀ word,
    (dfa.withMissing .stay).accepts word = (dfa.withMissing .reject).accepts word
  foreign : ∀ missing word c, c ∈ word → c ∉ dfa.alphabet →
    (dfa.withMissing missing).accepts word = false

end PatternAutomata.Dfa
