import PatternAutomata.Nfa.Built
import PatternAutomata.Nfa.Run

/-!
# The algebra of runs

Runs compose, and a run on a concatenation splits at a state in between.  In a closed automaton a
run stays among the states and reads only characters of the alphabet.
-/

namespace PatternAutomata.Nfa

variable {S : Type} [Ord S] [Std.TransOrd S]

namespace EpsilonReach

theorem trans
    {nfa : Nfa S} {source middle target : S}
    (first : nfa.EpsilonReach source middle)
    (second : nfa.EpsilonReach middle target) :
    nfa.EpsilonReach source target := by
  induction first with
  | refl => exact second
  | step move _ ih => exact .step move (ih second)

theorem toRun
    {nfa : Nfa S} {source target : S}
    (reach : nfa.EpsilonReach source target) :
    nfa.Run source [] target := by
  induction reach with
  | refl state => exact .stop state
  | step move _ ih => exact .skip move ih

end EpsilonReach

namespace Run

theorem trans
    {nfa : Nfa S} {source middle target : S} {first second : List Char}
    (before : nfa.Run source first middle)
    (after : nfa.Run middle second target) :
    nfa.Run source (first ++ second) target := by
  induction before with
  | stop => exact after
  | skip move _ ih => exact .skip move (ih after)
  | read move _ ih => exact .read move (ih after)

theorem nil_iff {nfa : Nfa S} {source target : S} :
    nfa.Run source [] target ↔ nfa.EpsilonReach source target := by
  constructor
  · intro run
    generalize empty : ([] : List Char) = word at run
    induction run with
    | stop state => exact .refl state
    | skip move _ ih => exact .step move (ih empty)
    | read => cases empty
  · exact EpsilonReach.toRun

/-- A run on a nonempty word moves by epsilon to the place where it reads the first character. -/
theorem cons_iff
    {nfa : Nfa S} {source target : S} {c : Char} {word : List Char} :
    nfa.Run source (c :: word) target ↔
      ∃ before after, nfa.EpsilonReach source before ∧
        nfa.HasMove before (.char c) after ∧ nfa.Run after word target := by
  constructor
  · intro run
    generalize whole : c :: word = text at run
    induction run with
    | stop => cases whole
    | skip move _ ih =>
        obtain ⟨before, after, reach, reads, rest⟩ := ih whole
        exact ⟨before, after, .step move reach, reads, rest⟩
    | read move rest =>
        cases whole
        exact ⟨_, _, .refl _, move, rest⟩
  · intro through
    obtain ⟨before, after, reach, reads, rest⟩ := through
    exact reach.toRun.trans (.read reads rest)

theorem append_iff
    {nfa : Nfa S} {source target : S} {first second : List Char} :
    nfa.Run source (first ++ second) target ↔
      ∃ middle, nfa.Run source first middle ∧ nfa.Run middle second target := by
  constructor
  · intro run
    induction first generalizing source with
    | nil => exact ⟨source, .stop source, run⟩
    | cons c first ih =>
        obtain ⟨before, after, reach, reads, rest⟩ := cons_iff.mp run
        obtain ⟨middle, upTo, onwards⟩ := ih rest
        exact ⟨middle, cons_iff.mpr ⟨before, after, reach, reads, upTo⟩, onwards⟩
  · intro through
    obtain ⟨middle, before, after⟩ := through
    exact before.trans after

/-- A run on a word that ends with a character reads it and then moves by epsilon. -/
theorem concat_iff
    {nfa : Nfa S} {source target : S} {c : Char} {word : List Char} :
    nfa.Run source (word ++ [c]) target ↔
      ∃ before after, nfa.Run source word before ∧
        nfa.HasMove before (.char c) after ∧ nfa.EpsilonReach after target := by
  rw [append_iff]
  constructor
  · intro through
    obtain ⟨middle, upTo, last⟩ := through
    obtain ⟨before, after, reach, reads, rest⟩ := cons_iff.mp last
    have arrived : nfa.Run source word before := by
      simpa using upTo.trans reach.toRun
    exact ⟨before, after, arrived, reads, nil_iff.mp rest⟩
  · intro through
    obtain ⟨before, after, upTo, reads, reach⟩ := through
    exact ⟨before, upTo, .read reads reach.toRun⟩

end Run

namespace Closed

theorem source_mem_of_hasMove
    {nfa : Nfa S} {source target : S} {symbol : Symbol}
    (closed : nfa.Closed) (move : nfa.HasMove source symbol target) :
    source ∈ nfa.states := by
  obtain ⟨row, _, present, _, _⟩ := hasMove_iff.mp move
  exact closed.source_mem source row present

theorem target_mem_of_hasMove
    {nfa : Nfa S} {source target : S} {symbol : Symbol}
    (closed : nfa.Closed) (move : nfa.HasMove source symbol target) :
    target ∈ nfa.states := by
  obtain ⟨row, targets, present, entry, member⟩ := hasMove_iff.mp move
  exact (closed.row_closed source row present).target_mem symbol targets target entry member

theorem char_mem_of_hasMove
    {nfa : Nfa S} {source target : S} {c : Char}
    (closed : nfa.Closed) (move : nfa.HasMove source (.char c) target) :
    c ∈ nfa.alphabet := by
  obtain ⟨row, targets, present, entry, _⟩ := hasMove_iff.mp move
  exact (closed.row_closed source row present).char_mem c targets entry

theorem mem_of_run
    {nfa : Nfa S} {source target : S} {word : List Char}
    (closed : nfa.Closed) (run : nfa.Run source word target)
    (member : source ∈ nfa.states) :
    target ∈ nfa.states := by
  induction run with
  | stop => exact member
  | skip move _ ih => exact ih (closed.target_mem_of_hasMove move)
  | read move _ ih => exact ih (closed.target_mem_of_hasMove move)

theorem chars_mem_of_run
    {nfa : Nfa S} {source target : S} {word : List Char}
    (closed : nfa.Closed) (run : nfa.Run source word target) :
    ∀ c, c ∈ word → c ∈ nfa.alphabet := by
  induction run with
  | stop => simp
  | skip _ _ ih => exact ih
  | read move _ ih =>
      intro c member
      rcases List.mem_cons.mp member with rfl | later
      · exact closed.char_mem_of_hasMove move
      · exact ih c later

end Closed

end PatternAutomata.Nfa
