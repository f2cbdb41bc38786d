import PatternAutomata.Proofs.Dfa.Rows

/-!
# Reading words

How a deterministic automaton reads a word: a character outside the alphabet ends the reading in any
case, and as long as no move is missing the reading follows the moves.  What a missing move means
shows only where one is missing.
-/

namespace PatternAutomata.Dfa

variable {S : Type} [Ord S] [Std.TransOrd S]
  {dfa : Dfa S} {state target final : S} {c : Char} {word : List Char} {missing : MissingMove}

theorem run_cons : dfa.run state (c :: word) = (dfa.advance state c).bind (dfa.run · word) :=
  List.foldlM_cons

theorem follow_cons :
    dfa.follow state (c :: word) = (dfa.target? state c).bind (dfa.follow · word) :=
  List.foldlM_cons

section Advance

theorem advance_of_foreign (foreign : c ∉ dfa.alphabet) : dfa.advance state c = none := by
  rw [advance, if_neg]
  rwa [← Std.ExtTreeSet.mem_iff_contains]

variable (char : c ∈ dfa.alphabet)

include char

theorem advance_of_target? (move : dfa.target? state c = some target) :
    dfa.advance state c = some target := by
  rw [advance, if_pos (Std.ExtTreeSet.mem_iff_contains.mp char), move]

theorem advance_stay :
    (dfa.withMissing .stay).advance state c = some ((dfa.target? state c).getD state) := by
  have inside : (dfa.withMissing .stay).alphabet.contains c = true :=
    Std.ExtTreeSet.mem_iff_contains.mp char
  rw [advance, if_pos inside, target?_withMissing]
  cases dfa.target? state c with
  | none => rfl
  | some target => rfl

theorem advance_reject : (dfa.withMissing .reject).advance state c = dfa.target? state c := by
  have inside : (dfa.withMissing .reject).alphabet.contains c = true :=
    Std.ExtTreeSet.mem_iff_contains.mp char
  rw [advance, if_pos inside, target?_withMissing]
  cases dfa.target? state c with
  | none => rfl
  | some target => rfl

end Advance

theorem run_of_foreign (occurs : c ∈ word) (foreign : c ∉ dfa.alphabet) :
    dfa.run state word = none := by
  induction word generalizing state with
  | nil => cases occurs
  | cons d word ih =>
      rw [run_cons]
      rcases List.mem_cons.mp occurs with rfl | later
      · rw [advance_of_foreign foreign]
        rfl
      · cases dfa.advance state d with
        | none => rfl
        | some next => exact ih later

theorem accepts_of_foreign (occurs : c ∈ word) (foreign : c ∉ dfa.alphabet) :
    dfa.accepts word = false := by
  rw [accepts, run_of_foreign occurs foreign]
  rfl

theorem spellable_of_accepts (accepted : dfa.accepts word = true) :
    ∀ c ∈ word, c ∈ dfa.alphabet := by
  intro c occurs
  by_cases char : c ∈ dfa.alphabet
  · exact char
  · rw [accepts_of_foreign occurs char] at accepted
    cases accepted

/-- Automata over one alphabet have to be compared on the words over it only. -/
theorem accepts_eq_of_spellable
    {T : Type} [Ord T] [Std.TransOrd T] {other : Dfa T} (alphabet : dfa.alphabet = other.alphabet)
    (agree : (∀ c ∈ word, c ∈ other.alphabet) → dfa.accepts word = other.accepts word) :
    dfa.accepts word = other.accepts word := by
  by_cases spellable : ∀ c ∈ word, c ∈ other.alphabet
  · exact agree spellable
  · have refused : dfa.accepts word = false := by
      apply Bool.eq_false_iff.mpr
      intro accepted
      exact spellable (alphabet ▸ spellable_of_accepts accepted)
    have refusedOther : other.accepts word = false := by
      apply Bool.eq_false_iff.mpr
      intro accepted
      exact spellable (spellable_of_accepts accepted)
    exact refused.trans refusedOther.symm

theorem run_of_follow
    (spellable : ∀ c ∈ word, c ∈ dfa.alphabet) (follows : dfa.follow state word = some final) :
    dfa.run state word = some final := by
  induction word generalizing state with
  | nil => exact follows
  | cons c word ih =>
      obtain ⟨next, move, rest⟩ := Option.bind_eq_some_iff.mp (follow_cons.symm.trans follows)
      obtain ⟨char, later⟩ := List.forall_mem_cons.mp spellable
      rw [run_cons, advance_of_target? char move]
      exact ih later rest

/-- If a missing move rejects, then reading a word is following its moves. -/
theorem run_reject (spellable : ∀ c ∈ word, c ∈ dfa.alphabet) :
    (dfa.withMissing .reject).run state word = dfa.follow state word := by
  induction word generalizing state with
  | nil => rfl
  | cons c word ih =>
      obtain ⟨char, later⟩ := List.forall_mem_cons.mp spellable
      rw [run_cons, follow_cons, advance_reject char]
      cases dfa.target? state c with
      | none => rfl
      | some next => exact ih later

/-- If a missing move rejects, then the moves of a word decide about it. -/
theorem accepts_reject_iff :
    (dfa.withMissing .reject).accepts word = true ↔
      (∀ c ∈ word, c ∈ dfa.alphabet) ∧
        ∃ final, dfa.follow dfa.start word = some final ∧ final ∈ dfa.accepting := by
  constructor
  · intro accepted
    have spellable : ∀ c ∈ word, c ∈ (dfa.withMissing .reject).alphabet :=
      spellable_of_accepts accepted
    obtain ⟨final, reads, accepting⟩ := (Option.any_eq_true _ _).mp accepted
    exact ⟨spellable, final, (run_reject spellable).symm.trans reads,
      Std.ExtTreeSet.mem_iff_contains.mpr accepting⟩
  · rintro ⟨spellable, final, follows, accepting⟩
    have reads : (dfa.withMissing .reject).run dfa.start word = some final :=
      (run_reject spellable).trans follows
    exact (Option.any_eq_true _ _).mpr ⟨final, reads, Std.ExtTreeSet.mem_iff_contains.mp accepting⟩

/-- A word that can be read without a missing move is accepted or not, whatever such a move would
mean. -/
theorem accepts_of_follow
    (spellable : ∀ c ∈ word, c ∈ dfa.alphabet) (follows : dfa.follow dfa.start word = some final) :
    (dfa.withMissing missing).accepts word = dfa.isAccepting final := by
  have reads : (dfa.withMissing missing).run dfa.start word = some final := by
    apply run_of_follow
    · exact spellable
    · exact follows
  rw [accepts]
  exact congrArg (Option.any dfa.isAccepting) reads

end PatternAutomata.Dfa
