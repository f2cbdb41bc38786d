import PatternAutomata.Dfa.Built

/-!
# Whole rows of moves

Setting the moves from one state on several characters at once, to targets that a function gives.
-/

namespace PatternAutomata.Dfa

variable {S : Type} [Ord S] [Std.TransOrd S]

def setMoves (dfa : Dfa S) (source : S) (target : Char → S) (chars : List Char) : Dfa S :=
  chars.foldl (fun dfa c => dfa.setMove source c (target c)) dfa

variable {dfa : Dfa S} {source state : S} {target : Char → S} {chars : List Char} {c : Char}

@[simp] theorem start_setMoves : (dfa.setMoves source target chars).start = dfa.start := by
  induction chars generalizing dfa with
  | nil => rfl
  | cons d chars ih => exact ih

@[simp] theorem missing_setMoves : (dfa.setMoves source target chars).missing = dfa.missing := by
  induction chars generalizing dfa with
  | nil => rfl
  | cons d chars ih => exact ih

@[simp] theorem accepting_setMoves :
    (dfa.setMoves source target chars).accepting = dfa.accepting := by
  induction chars generalizing dfa with
  | nil => rfl
  | cons d chars ih => exact ih

theorem mem_alphabet_setMoves :
    c ∈ (dfa.setMoves source target chars).alphabet ↔ c ∈ dfa.alphabet ∨ c ∈ chars := by
  induction chars generalizing dfa with
  | nil => simp [setMoves]
  | cons d chars ih =>
      apply ih.trans
      change c ∈ dfa.alphabet.insert d ∨ _ ↔ _
      rw [OrderedSet.mem_insert, List.mem_cons, or_assoc, or_left_comm]

variable [Std.LawfulEqOrd S]

theorem Built.setMoves (built : dfa.Built) : (dfa.setMoves source target chars).Built := by
  induction chars generalizing dfa with
  | nil => exact built
  | cons d chars ih => exact ih (.setMove source d (target d) built)

theorem mem_states_setMoves :
    state ∈ (dfa.setMoves source target chars).states ↔
      state ∈ dfa.states ∨ ∃ c, c ∈ chars ∧ (state = source ∨ state = target c) := by
  induction chars generalizing dfa with
  | nil => simp [setMoves]
  | cons d chars ih =>
      apply ih.trans
      change state ∈ (dfa.states.insert source).insert (target d) ∨ _ ↔ _
      rw [OrderedSet.mem_insert, OrderedSet.mem_insert]
      simp only [List.mem_cons, or_and_right, exists_or, exists_eq_left]
      constructor
      · intro cases
        rcases cases with (goal | origin | old) | later
        · exact .inr (.inl (.inr goal))
        · exact .inr (.inl (.inl origin))
        · exact .inl old
        · exact .inr (.inr later)
      · intro cases
        rcases cases with old | (origin | goal) | later
        · exact .inl (.inr (.inr old))
        · exact .inl (.inr (.inl origin))
        · exact .inl (.inl goal)
        · exact .inr later

theorem target?_setMoves_of_ne (different : source ≠ state ∨ c ∉ chars) :
    (dfa.setMoves source target chars).target? state c = dfa.target? state c := by
  induction chars generalizing dfa with
  | nil => rfl
  | cons d chars ih =>
      have later : source ≠ state ∨ c ∉ chars :=
        different.imp_right fun absent member => absent (List.mem_cons_of_mem _ member)
      have here : source ≠ state ∨ d ≠ c :=
        different.imp_right fun absent equal => absent (equal ▸ List.mem_cons_self)
      exact (ih later).trans (target?_setMove_of_ne here)

theorem target?_setMoves_of_mem (member : c ∈ chars) :
    (dfa.setMoves source target chars).target? source c = some (target c) := by
  induction chars generalizing dfa with
  | nil => cases member
  | cons d chars ih =>
      by_cases later : c ∈ chars
      · exact ih later
      · have first : c = d := (List.mem_cons.mp member).resolve_right later
        subst first
        exact (target?_setMoves_of_ne (.inr later)).trans target?_setMove_self

end PatternAutomata.Dfa
