import PatternAutomata.Pattern.Language
import PatternAutomata.Proofs.Nfa.Embedding
import PatternAutomata.Proofs.Pattern.Joining

/-!
# The languages of the rules

What the automata accept that the rules of the construction join: the rules are operations on
languages.
-/

namespace PatternAutomata

namespace Quantifier

/-- The words that may follow the first member of a language. -/
def more (mark : Quantifier) (language : Language Char) : Language Char :=
  if mark.allowsMany then KStar.kstar language else 1

theorem nil_mem_more (mark : Quantifier) (language : Language Char) :
    [] ∈ mark.more language := by
  rw [more]
  split
  · exact Language.nil_mem_kstar language
  · exact Language.nil_mem_one

theorem mul_more_le
    {mark : Quantifier} (many : mark.allowsMany = true) (language : Language Char) :
    language * mark.more language ≤ mark.more language := by
  rw [more, if_pos many]
  exact mul_kstar_le_kstar

/-- A quantifier allows no member, or one and what may follow it. -/
theorem power_eq (mark : Quantifier) (language : Language Char) :
    mark.power language =
      (if mark.allowsNone then 1 else 0) + language * mark.more language := by
  cases mark with
  | star => exact (Language.one_add_self_mul_kstar_eq_kstar language).symm
  | optional => simp [power, more, allowsNone, allowsMany]
  | plus => simp [power, more, allowsNone, allowsMany]

end Quantifier

namespace Nfa

theorem language_shift {nfa : Nfa Nat} {offset : Nat} :
    (nfa.shift offset).language = nfa.language :=
  language_relabel (injective_add offset)

theorem language_above {first second : Nfa Nat} :
    (first.above second).language = second.language :=
  language_shift

theorem language_oneOf {characters : List Char} :
    (oneOf characters).language = {word | ∃ c ∈ characters, word = [c]} := by
  apply Language.ext
  intro word
  rw [mem_language, start_oneOf]
  constructor
  · intro accepts
    obtain ⟨final, accepting, run⟩ := accepts
    rw [accepting_oneOf.mp accepting] at run
    cases run with
    | skip move =>
        obtain ⟨_, _, c, _, impossible⟩ := hasMove_oneOf.mp move
        cases impossible
    | @read _ _ _ c rest move run =>
        obtain ⟨_, rfl, d, member, same⟩ := hasMove_oneOf.mp move
        cases same
        have stuck : ∀ symbol next, ¬(oneOf characters).HasMove 1 symbol next := by
          intro symbol next move
          exact absurd (hasMove_oneOf.mp move).1 (by decide)
        rw [(run.eq_of_stuck stuck).1]
        exact ⟨c, member, rfl⟩
  · intro spelled
    obtain ⟨c, member, rfl⟩ := spelled
    refine ⟨1, accepting_oneOf.mpr rfl, .read ?_ (.stop 1)⟩
    exact hasMove_oneOf.mpr ⟨rfl, rfl, c, member, rfl⟩

section FollowedBy

variable {first second : Nfa Nat}

theorem embeds_first (closedAbove : (first.above second).Closed) :
    Embeds first (first.followedBy second) (· = (first.above second).start) where
  keeps move := hasMove_followedBy.mpr (.inl move)
  leaves := by
    intro source symbol target member move
    rcases hasMove_followedBy.mp move with inside | above | exit
    · exact .inl inside
    · have apart := lt_of_mem_above member (closedAbove.source_mem_of_hasMove above)
      exact absurd apart (Nat.lt_irrefl source)
    · exact .inr exit

theorem embeds_second (closed : first.Closed) :
    Embeds (first.above second) (first.followedBy second) fun _ => False where
  keeps move := hasMove_followedBy.mpr (.inr (.inl move))
  leaves := by
    intro source symbol target member move
    rcases hasMove_followedBy.mp move with inside | above | ⟨accepting, _, _⟩
    · have apart := lt_of_mem_above (closed.source_mem_of_hasMove inside) member
      exact absurd apart (Nat.lt_irrefl source)
    · exact .inl above
    · have apart := lt_of_mem_above (closed.accepting_mem source accepting) member
      exact absurd apart (Nat.lt_irrefl source)

theorem language_followedBy (built : first.Built) (secondBuilt : second.Built) :
    (first.followedBy second).language = first.language * second.language := by
  have closed := built.closed
  have closedAbove : (first.above second).Closed := secondBuilt.shift.closed
  have inFirst := embeds_first closedAbove
  have inSecond : Embeds (first.above second) (first.followedBy second) fun _ => False :=
    embeds_second closed
  apply Language.ext
  intro word
  rw [Language.mem_mul, mem_language, start_followedBy, ← @language_above first second]
  constructor
  · intro accepts
    obtain ⟨final, accepting, run⟩ := accepts
    rw [mem_accepting_followedBy] at accepting
    have finalAbove := closedAbove.accepting_mem final accepting
    have next : ∀ exit, exit = (first.above second).start →
        (∀ rest, (first.followedBy second).Run exit rest final →
          rest ∈ (first.above second).language) ∨
        exit = first.start ∧ final ∉ first.states ∧
          first.language * (first.above second).language ≤ (first.above second).language := by
      intro exit start
      subst start
      left
      intro rest run
      exact ⟨final, accepting, inSecond.run_of_sealed closedAbove run closedAbove.start_mem⟩
    rcases inFirst.run_cases closed next run closed.start_mem with stays | splits
    · have apart := lt_of_mem_above (closed.mem_of_run stays closed.start_mem) finalAbove
      exact absurd apart (Nat.lt_irrefl final)
    · obtain ⟨upTo, middle, onwards, rfl, inside, acceptingMiddle, member⟩ := splits
      exact ⟨upTo, ⟨middle, acceptingMiddle, inside⟩, onwards, member, rfl⟩
  · intro split
    obtain ⟨upTo, accepts, onwards, acceptsRest, rfl⟩ := split
    obtain ⟨middle, acceptingMiddle, runFirst⟩ := accepts
    obtain ⟨final, accepting, runSecond⟩ := acceptsRest
    refine ⟨final, mem_accepting_followedBy.mpr accepting, ?_⟩
    have exit : (first.followedBy second).HasMove middle .epsilon (first.above second).start :=
      hasMove_followedBy.mpr (.inr (.inr ⟨acceptingMiddle, rfl, rfl⟩))
    exact (inFirst.run runFirst).trans (.skip exit (inSecond.run runSecond))

end FollowedBy

theorem lt_greatest_succ {nfa : Nfa Nat} {state : Nat} (member : state ∈ nfa.states) :
    state < nfa.greatest + 1 :=
  Nat.lt_succ_of_le (le_greatest member)

theorem pos_of_mem_shift {nfa : Nfa Nat} {state : Nat} (member : state ∈ (nfa.shift 1).states) :
    0 < state := by
  obtain ⟨origin, _, rfl⟩ := mem_states_shift.mp member
  exact Nat.succ_pos origin

section Either

variable {left right : Nfa Nat}

theorem embeds_left (closedAbove : ((left.shift 1).above right).Closed) :
    Embeds (left.shift 1) (left.either right) (· = finalOfEither left right) where
  keeps move := hasMove_either.mpr (.inl move)
  leaves := by
    intro source symbol target member move
    rcases hasMove_either.mp move with
      inLeft | inRight | ⟨epsilon, ⟨rfl, _⟩ | ⟨accepting | accepting, exit⟩⟩
    · exact .inl inLeft
    · have apart := lt_of_mem_above member (closedAbove.source_mem_of_hasMove inRight)
      exact absurd apart (Nat.lt_irrefl source)
    · exact absurd (pos_of_mem_shift member) (Nat.lt_irrefl 0)
    · exact .inr ⟨accepting, epsilon, exit⟩
    · have apart := lt_of_mem_above member (closedAbove.accepting_mem source accepting)
      exact absurd apart (Nat.lt_irrefl source)

theorem embeds_right (closed : (left.shift 1).Closed) :
    Embeds ((left.shift 1).above right) (left.either right) (· = finalOfEither left right) where
  keeps move := hasMove_either.mpr (.inr (.inl move))
  leaves := by
    intro source symbol target member move
    rcases hasMove_either.mp move with
      inLeft | inRight | ⟨epsilon, ⟨rfl, _⟩ | ⟨accepting | accepting, exit⟩⟩
    · have apart := lt_of_mem_above (closed.source_mem_of_hasMove inLeft) member
      exact absurd apart (Nat.lt_irrefl source)
    · exact .inl inRight
    · have apart := lt_of_mem_above closed.start_mem member
      exact absurd apart (Nat.not_lt_zero _)
    · have apart := lt_of_mem_above (closed.accepting_mem source accepting) member
      exact absurd apart (Nat.lt_irrefl source)
    · exact .inr ⟨accepting, epsilon, exit⟩

theorem finalOfEither_not_mem_left (closedAbove : ((left.shift 1).above right).Closed) :
    finalOfEither left right ∉ (left.shift 1).states := by
  intro member
  have apart := lt_of_mem_above member closedAbove.start_mem
  have bound := lt_greatest_succ closedAbove.start_mem
  rw [finalOfEither] at apart
  omega

theorem finalOfEither_not_mem_right :
    finalOfEither left right ∉ ((left.shift 1).above right).states := fun member =>
  Nat.lt_irrefl _ (lt_greatest_succ member)

theorem stuck_either
    (closed : (left.shift 1).Closed) (closedAbove : ((left.shift 1).above right).Closed) :
    ∀ symbol next, ¬(left.either right).HasMove (finalOfEither left right) symbol next := by
  intro symbol next move
  rcases hasMove_either.mp move with
    inLeft | inRight | ⟨_, ⟨zero, _⟩ | ⟨accepting | accepting, _⟩⟩
  · exact finalOfEither_not_mem_left closedAbove (closed.source_mem_of_hasMove inLeft)
  · exact finalOfEither_not_mem_right (closedAbove.source_mem_of_hasMove inRight)
  · rw [finalOfEither] at zero
    omega
  · exact finalOfEither_not_mem_left closedAbove (closed.accepting_mem _ accepting)
  · exact finalOfEither_not_mem_right (closedAbove.accepting_mem _ accepting)

theorem language_either (built : left.Built) (rightBuilt : right.Built) :
    (left.either right).language = left.language + right.language := by
  have closed : (left.shift 1).Closed := built.shift.closed
  have closedAbove : ((left.shift 1).above right).Closed := rightBuilt.shift.closed
  have inLeft : Embeds (left.shift 1) (left.either right) (· = finalOfEither left right) :=
    embeds_left closedAbove
  have inRight : Embeds ((left.shift 1).above right) (left.either right)
      (· = finalOfEither left right) :=
    embeds_right closed
  apply Language.ext
  intro word
  rw [← @language_shift left 1, ← @language_above (left.shift 1) right, Language.mem_add,
    mem_language, start_either]
  constructor
  · intro accepts
    obtain ⟨final, accepting, run⟩ := accepts
    have isFinal : final = finalOfEither left right := mem_accepting_either.mp accepting
    subst isFinal
    have stuck := stuck_either closed closedAbove
    obtain ⟨symbol, middle, rest, move, run, rfl⟩ := run.exists_move (Nat.succ_ne_zero _).symm
    rcases hasMove_either.mp move with
      inside | inside | ⟨rfl, ⟨_, rfl | rfl⟩ | ⟨accepting | accepting, _⟩⟩
    · exact absurd (pos_of_mem_shift (closed.source_mem_of_hasMove inside)) (Nat.lt_irrefl 0)
    · have apart := lt_of_mem_above closed.start_mem (closedAbove.source_mem_of_hasMove inside)
      exact absurd apart (Nat.not_lt_zero _)
    · have outside := finalOfEither_not_mem_left closedAbove
      exact .inl (inLeft.mem_language_of_run closed outside stuck run)
    · have outside := @finalOfEither_not_mem_right left right
      exact .inr (inRight.mem_language_of_run closedAbove outside stuck run)
    · exact absurd (pos_of_mem_shift (closed.accepting_mem 0 accepting)) (Nat.lt_irrefl 0)
    · have apart := lt_of_mem_above closed.start_mem (closedAbove.accepting_mem 0 accepting)
      exact absurd apart (Nat.not_lt_zero _)
  · intro member
    refine ⟨finalOfEither left right, mem_accepting_either.mpr rfl, ?_⟩
    rcases member with ⟨middle, accepting, run⟩ | ⟨middle, accepting, run⟩
    · have enter : (left.either right).HasMove 0 .epsilon (left.shift 1).start :=
        hasMove_either.mpr (.inr (.inr ⟨rfl, .inl ⟨rfl, .inl rfl⟩⟩))
      have exit : (left.either right).HasMove middle .epsilon (finalOfEither left right) :=
        hasMove_either.mpr (.inr (.inr ⟨rfl, .inr ⟨.inl accepting, rfl⟩⟩))
      simpa using Run.skip enter ((inLeft.run run).trans (.skip exit (.stop _)))
    · have enter : (left.either right).HasMove 0 .epsilon ((left.shift 1).above right).start :=
        hasMove_either.mpr (.inr (.inr ⟨rfl, .inl ⟨rfl, .inr rfl⟩⟩))
      have exit : (left.either right).HasMove middle .epsilon (finalOfEither left right) :=
        hasMove_either.mpr (.inr (.inr ⟨rfl, .inr ⟨.inr accepting, rfl⟩⟩))
      simpa using Run.skip enter ((inRight.run run).trans (.skip exit (.stop _)))

end Either

section Quantified

variable {nfa : Nfa Nat} {mark : Quantifier}

/-- The states of the inner automaton of a repetition lie between the start and the final state. -/
theorem embeds_quantified :
    Embeds (nfa.shift 1) (nfa.quantified mark) fun exit =>
      exit = (nfa.shift 1).greatest + 1 ∨ mark.allowsMany = true ∧ exit = (nfa.shift 1).start where
  keeps move := hasMove_quantified.mpr (.inl move)
  leaves := by
    intro source symbol target member move
    rcases hasMove_quantified.mp move with inside | ⟨epsilon, ⟨zero, _⟩ | ⟨accepting, exit⟩⟩
    · exact .inl inside
    · have positive := pos_of_mem_shift member
      omega
    · exact .inr ⟨accepting, epsilon, exit⟩

theorem stuck_quantified (closed : (nfa.shift 1).Closed) :
    ∀ symbol next, ¬(nfa.quantified mark).HasMove ((nfa.shift 1).greatest + 1) symbol next := by
  intro symbol next move
  rcases hasMove_quantified.mp move with inside | ⟨_, ⟨zero, _⟩ | ⟨accepting, _⟩⟩
  · exact Nat.lt_irrefl _ (lt_greatest_succ (closed.source_mem_of_hasMove inside))
  · omega
  · exact Nat.lt_irrefl _ (lt_greatest_succ (closed.accepting_mem _ accepting))

theorem run_quantified_of_flatten
    (many : mark.allowsMany = true) {words : List (List Char)}
    (each : ∀ word ∈ words, word ∈ (nfa.shift 1).language) {state : Nat}
    (accepting : state ∈ (nfa.shift 1).accepting) :
    (nfa.quantified mark).Run state words.flatten ((nfa.shift 1).greatest + 1) := by
  induction words generalizing state with
  | nil =>
      refine .skip ?_ (.stop _)
      exact hasMove_quantified.mpr (.inr ⟨rfl, .inr ⟨accepting, .inl rfl⟩⟩)
  | cons word words ih =>
      obtain ⟨final, acceptingFinal, run⟩ := each word List.mem_cons_self
      have back : (nfa.quantified mark).HasMove state .epsilon (nfa.shift 1).start :=
        hasMove_quantified.mpr (.inr ⟨rfl, .inr ⟨accepting, .inr ⟨many, rfl⟩⟩⟩)
      have rest := ih (fun other member => each other (List.mem_cons_of_mem word member))
        acceptingFinal
      exact .skip back ((embeds_quantified.run run).trans rest)

theorem run_quantified_of_more
    {word : List Char} (member : word ∈ mark.more (nfa.shift 1).language) {state : Nat}
    (accepting : state ∈ (nfa.shift 1).accepting) :
    (nfa.quantified mark).Run state word ((nfa.shift 1).greatest + 1) := by
  rw [Quantifier.more] at member
  split at member
  · obtain ⟨words, rfl, each⟩ := Language.mem_kstar.mp member
    exact run_quantified_of_flatten ‹_› each accepting
  · have empty := (Language.mem_one word).mp member
    subst empty
    refine .skip ?_ (.stop _)
    exact hasMove_quantified.mpr (.inr ⟨rfl, .inr ⟨accepting, .inl rfl⟩⟩)

/-- What a run can read that has entered the inner automaton of a repetition. -/
theorem mem_of_run_quantified
    (closed : (nfa.shift 1).Closed) {word : List Char}
    (run : (nfa.quantified mark).Run (nfa.shift 1).start word ((nfa.shift 1).greatest + 1)) :
    word ∈ (nfa.shift 1).language * mark.more (nfa.shift 1).language := by
  have outside : (nfa.shift 1).greatest + 1 ∉ (nfa.shift 1).states := fun member =>
    Nat.lt_irrefl _ (lt_greatest_succ member)
  have next : ∀ exit, (exit = (nfa.shift 1).greatest + 1 ∨
        mark.allowsMany = true ∧ exit = (nfa.shift 1).start) →
      (∀ rest, (nfa.quantified mark).Run exit rest ((nfa.shift 1).greatest + 1) →
        rest ∈ mark.more (nfa.shift 1).language) ∨
      exit = (nfa.shift 1).start ∧ (nfa.shift 1).greatest + 1 ∉ (nfa.shift 1).states ∧
        (nfa.shift 1).language * mark.more (nfa.shift 1).language ≤
          mark.more (nfa.shift 1).language := by
    intro exit isExit
    rcases isExit with rfl | ⟨many, rfl⟩
    · left
      intro rest run
      rw [(run.eq_of_stuck (stuck_quantified closed)).1]
      exact mark.nil_mem_more _
    · exact .inr ⟨rfl, outside, Quantifier.mul_more_le many _⟩
  rcases embeds_quantified.run_cases closed next run closed.start_mem with stays | splits
  · exact absurd (closed.mem_of_run stays closed.start_mem) outside
  · obtain ⟨upTo, middle, onwards, rfl, inside, accepting, member⟩ := splits
    exact Language.append_mem_mul ⟨middle, accepting, inside⟩ member

theorem language_quantified (built : nfa.Built) :
    (nfa.quantified mark).language = mark.power nfa.language := by
  have closed : (nfa.shift 1).Closed := built.shift.closed
  apply Language.ext
  intro word
  rw [← @language_shift nfa 1, Quantifier.power_eq, Language.mem_add, mem_language,
    start_quantified]
  constructor
  · intro accepts
    obtain ⟨final, accepting, run⟩ := accepts
    rw [mem_accepting_quantified] at accepting
    subst accepting
    obtain ⟨symbol, middle, rest, move, run, rfl⟩ := run.exists_move (by omega)
    rcases hasMove_quantified.mp move with
      inside | ⟨rfl, ⟨_, rfl | ⟨none, rfl⟩⟩ | ⟨accepting, _⟩⟩
    · exact absurd (pos_of_mem_shift (closed.source_mem_of_hasMove inside)) (Nat.lt_irrefl 0)
    · exact .inr (mem_of_run_quantified closed run)
    · rw [if_pos none, (run.eq_of_stuck (stuck_quantified closed)).1]
      exact .inl Language.nil_mem_one
    · exact absurd (pos_of_mem_shift (closed.accepting_mem 0 accepting)) (Nat.lt_irrefl 0)
  · intro member
    refine ⟨(nfa.shift 1).greatest + 1, mem_accepting_quantified.mpr rfl, ?_⟩
    rcases member with none | some
    · split at none
      · have skip : (nfa.quantified mark).HasMove 0 .epsilon ((nfa.shift 1).greatest + 1) :=
          hasMove_quantified.mpr (.inr ⟨rfl, .inl ⟨rfl, .inr ⟨‹_›, rfl⟩⟩⟩)
        rw [(Language.mem_one word).mp none]
        exact .skip skip (.stop _)
      · exact absurd none (Language.notMem_zero word)
    · obtain ⟨upTo, ⟨middle, accepting, inside⟩, onwards, member, rfl⟩ := Language.mem_mul.mp some
      have enter : (nfa.quantified mark).HasMove 0 .epsilon (nfa.shift 1).start :=
        hasMove_quantified.mpr (.inr ⟨rfl, .inl ⟨rfl, .inl rfl⟩⟩)
      have first : (nfa.quantified mark).Run (nfa.shift 1).start upTo middle :=
        embeds_quantified.run inside
      exact .skip enter (first.trans (run_quantified_of_more member accepting))

end Quantified

end Nfa

end PatternAutomata
