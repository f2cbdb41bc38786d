import Mathlib.Computability.Language
import Mathlib.Order.CompletePartialOrder
import PatternAutomata.Proofs.Nfa.Parts
import PatternAutomata.Proofs.Nfa.Runs

/-!
# Automata inside automata

An automaton is embedded in another one if the other one has its moves and leaves its states only
by epsilon moves from its accepting states.  A run from an embedded automaton is a run of the
embedded automaton up to the place where it leaves for good.
-/

namespace PatternAutomata.Nfa

variable {S T : Type} [Ord S] [Std.TransOrd S] [Ord T] [Std.TransOrd T]

def language (nfa : Nfa S) : Language Char :=
  {word | nfa.Accepts word}

theorem mem_language {nfa : Nfa S} {word : List Char} :
    word ∈ nfa.language ↔ ∃ final ∈ nfa.accepting, nfa.Run nfa.start word final :=
  Iff.rfl

/-- A run that goes somewhere begins with a move. -/
theorem Run.exists_move
    {nfa : Nfa S} {source target : S} {word : List Char} (run : nfa.Run source word target)
    (different : source ≠ target) :
    ∃ symbol middle rest, nfa.HasMove source symbol middle ∧ nfa.Run middle rest target ∧
      word = symbol.char?.toList ++ rest := by
  cases run with
  | stop => exact absurd rfl different
  | skip move rest => exact ⟨.epsilon, _, _, move, rest, rfl⟩
  | read move rest => exact ⟨.char _, _, _, move, rest, rfl⟩

theorem Run.eq_of_stuck
    {nfa : Nfa S} {source target : S} {word : List Char} (run : nfa.Run source word target)
    (stuck : ∀ symbol next, ¬nfa.HasMove source symbol next) :
    word = [] ∧ target = source := by
  cases run with
  | stop => exact ⟨rfl, rfl⟩
  | skip move => exact absurd move (stuck _ _)
  | read move => exact absurd move (stuck _ _)

/-- The outer automaton has the moves of the inner one, and otherwise leaves the states of the inner
one only by epsilon moves from its accepting states to the given exits. -/
structure Embeds (inner outer : Nfa S) (exits : S → Prop) : Prop where
  keeps : ∀ {source symbol target}, inner.HasMove source symbol target →
    outer.HasMove source symbol target
  leaves : ∀ {source symbol target}, source ∈ inner.states → outer.HasMove source symbol target →
    inner.HasMove source symbol target ∨
      source ∈ inner.accepting ∧ symbol = .epsilon ∧ exits target

namespace Embeds

variable {inner outer : Nfa S} {exits : S → Prop} {source target : S} {word : List Char}

theorem run
    (embeds : Embeds inner outer exits) (run : inner.Run source word target) :
    outer.Run source word target := by
  induction run with
  | stop state => exact .stop state
  | skip move _ ih => exact .skip (embeds.keeps move) ih
  | read move _ ih => exact .read (embeds.keeps move) ih

/-- A run from the inner automaton stays inside, or it ends with a word of the given language after
a run to an accepting state of the inner automaton.  An exit may lead back to the start of the inner
automaton if the language absorbs the words of the inner automaton. -/
theorem run_cases
    {after : Language Char} (embeds : Embeds inner outer exits) (closed : inner.Closed)
    (next : ∀ exit, exits exit →
      (∀ rest, outer.Run exit rest target → rest ∈ after) ∨
        exit = inner.start ∧ target ∉ inner.states ∧ inner.language * after ≤ after)
    (run : outer.Run source word target) (member : source ∈ inner.states) :
    inner.Run source word target ∨
      ∃ first final second, word = first ++ second ∧ inner.Run source first final ∧
        final ∈ inner.accepting ∧ second ∈ after := by
  induction run with
  | stop state => exact .inl (.stop state)
  | @skip source middle target word move rest ih =>
      rcases embeds.leaves member move with inside | ⟨accepting, _, exit⟩
      · rcases ih next (closed.target_mem_of_hasMove inside) with stays | splits
        · exact .inl (.skip inside stays)
        · obtain ⟨first, final, second, rfl, upTo, accepting, onwards⟩ := splits
          exact .inr ⟨first, final, second, rfl, .skip inside upTo, accepting, onwards⟩
      · refine .inr ⟨[], source, word, rfl, .stop source, accepting, ?_⟩
        rcases next middle exit with leads | ⟨rfl, outside, absorbs⟩
        · exact leads word rest
        · rcases ih next closed.start_mem with stays | splits
          · exact absurd (closed.mem_of_run stays closed.start_mem) outside
          · obtain ⟨first, final, second, rfl, upTo, accepting, onwards⟩ := splits
            exact absorbs (Language.append_mem_mul ⟨final, accepting, upTo⟩ onwards)
  | read move _ ih =>
      rcases embeds.leaves member move with inside | ⟨_, impossible, _⟩
      · rcases ih next (closed.target_mem_of_hasMove inside) with stays | splits
        · exact .inl (.read inside stays)
        · obtain ⟨first, final, second, rfl, upTo, accepting, onwards⟩ := splits
          exact .inr ⟨_, final, second, rfl, .read inside upTo, accepting, onwards⟩
      · cases impossible

/-- A run from an automaton without exits stays inside. -/
theorem run_of_sealed
    (embeds : Embeds inner outer fun _ => False) (closed : inner.Closed)
    (run : outer.Run source word target) (member : source ∈ inner.states) :
    inner.Run source word target := by
  have noExit : ∀ exit : S, False →
      (∀ rest, outer.Run exit rest target → rest ∈ (0 : Language Char)) ∨
        exit = inner.start ∧ target ∉ inner.states ∧ inner.language * 0 ≤ 0 :=
    fun _ impossible => impossible.elim
  rcases embeds.run_cases closed noExit run member with stays | splits
  · exact stays
  · obtain ⟨_, _, second, _, _, _, impossible⟩ := splits
    exact absurd impossible (Language.notMem_zero second)

/-- A run from the start of the inner automaton to its only exit, which leads nowhere, reads a word
of the inner automaton. -/
theorem mem_language_of_run
    {final : S} (embeds : Embeds inner outer (· = final)) (closed : inner.Closed)
    (outside : final ∉ inner.states) (stuck : ∀ symbol next, ¬outer.HasMove final symbol next)
    (run : outer.Run inner.start word final) :
    word ∈ inner.language := by
  have next : ∀ exit, exit = final →
      (∀ rest, outer.Run exit rest final → rest ∈ (1 : Language Char)) ∨
        exit = inner.start ∧ final ∉ inner.states ∧ inner.language * 1 ≤ 1 := by
    intro exit same
    subst same
    left
    intro rest run
    exact (Language.mem_one rest).mpr (run.eq_of_stuck stuck).1
  rcases embeds.run_cases closed next run closed.start_mem with stays | splits
  · exact absurd (closed.mem_of_run stays closed.start_mem) outside
  · obtain ⟨first, middle, second, rfl, inside, accepting, empty⟩ := splits
    rw [(Language.mem_one second).mp empty, List.append_nil]
    exact ⟨middle, accepting, inside⟩

end Embeds

section Relabel

variable [Std.LawfulEqOrd S] [Std.LawfulEqOrd T] {nfa : Nfa S} {f : S → T}

/-- The runs from a renamed state are the renamed runs from the state. -/
theorem run_relabel_iff
    {known : S → Prop} (apart : Distinguishes f nfa known) {source : S} {goal : T}
    {word : List Char} (member : known source) :
    (nfa.relabel f).Run (f source) word goal ↔
      ∃ target, nfa.Run source word target ∧ f target = goal := by
  constructor
  · intro run
    generalize named : f source = name at run
    induction run generalizing source with
    | stop state => exact ⟨source, .stop source, named⟩
    | skip move _ ih =>
        obtain ⟨middle, inside, memberNext, rfl⟩ := apart.exists_of_hasMove member named move
        obtain ⟨target, rest, reached⟩ := ih memberNext rfl
        exact ⟨target, .skip inside rest, reached⟩
    | read move _ ih =>
        obtain ⟨middle, inside, memberNext, rfl⟩ := apart.exists_of_hasMove member named move
        obtain ⟨target, rest, reached⟩ := ih memberNext rfl
        exact ⟨target, .read inside rest, reached⟩
  · intro run
    obtain ⟨target, run, rfl⟩ := run
    induction run with
    | stop state => exact .stop (f state)
    | skip move _ ih =>
        have next := apart.target_known _ _ _ move
        exact .skip ((hasMove_relabel_iff apart).mpr ⟨_, _, move, rfl, rfl⟩) (ih next)
    | read move _ ih =>
        have next := apart.target_known _ _ _ move
        exact .read ((hasMove_relabel_iff apart).mpr ⟨_, _, move, rfl, rfl⟩) (ih next)

theorem language_relabel (injective : Function.Injective f) :
    (nfa.relabel f).language = nfa.language := by
  have runs : ∀ {word : List Char} {goal : T}, (nfa.relabel f).Run (f nfa.start) word goal ↔
      ∃ target, nfa.Run nfa.start word target ∧ f target = goal :=
    run_relabel_iff (.of_injective injective) trivial
  apply Language.ext
  intro word
  rw [mem_language, mem_language]
  constructor
  · intro accepts
    obtain ⟨goal, accepting, run⟩ := accepts
    obtain ⟨target, inside, rfl⟩ := runs.mp run
    obtain ⟨final, member, same⟩ := mem_accepting_relabel.mp accepting
    rw [injective same] at member
    exact ⟨target, member, inside⟩
  · intro accepts
    obtain ⟨final, accepting, run⟩ := accepts
    exact ⟨f final, mem_accepting_relabel.mpr ⟨final, accepting, rfl⟩, runs.mpr ⟨final, run, rfl⟩⟩

end Relabel

end PatternAutomata.Nfa
