import PatternAutomata.Proofs.Pattern.Joining

/-!
# Chains of unions

Laying out a chain of unions in one pass gives the same automaton, number for number, as the rule
for two automata applied from the end of the chain.  What is laid out behind some alternatives is
what would be laid out without them, shifted.
-/

namespace PatternAutomata.Nfa

def Layout.initial : Layout := ⟨singleton 0, 0, []⟩

/-- The alternatives laid out behind what is there. -/
def Layout.addAlternatives (layout : Layout) (lefts : List (Nfa Nat)) : Layout :=
  lefts.foldl addAlternative layout

namespace Layout

variable {layout : Layout} {left : Nfa Nat}

@[simp]
theorem next_addAlternative :
    (layout.addAlternative left).next = (left.shift (layout.next + 1)).greatest + 1 := rfl

@[simp]
theorem exits_addAlternative :
    (layout.addAlternative left).exits =
      layout.exits ++ [(left.shift (layout.next + 1)).accepting] := rfl

@[simp]
theorem mem_alphabet_addAlternative {c : Char} :
    c ∈ (layout.addAlternative left).body.alphabet ↔
      c ∈ layout.body.alphabet ∨ c ∈ left.alphabet := by
  simp [addAlternative]

theorem mem_states_addAlternative
    {state : Nat} (closed : left.Closed) :
    state ∈ (layout.addAlternative left).body.states ↔
      state ∈ layout.body.states ∨ state = layout.next ∨
        state = (layout.addAlternative left).next ∨
          state ∈ (left.shift (layout.next + 1)).states := by
  have start : (left.shift (layout.next + 1)).start ∈ (left.shift (layout.next + 1)).states :=
    (closed.relabel _).start_mem
  simp only [addAlternative, mem_states_absorb, mem_states_addMove]
  constructor
  · intro member
    rcases member with (rfl | rfl | rfl | rfl | old) | inside
    · exact .inr (.inr (.inl rfl))
    · exact .inr (.inl rfl)
    · exact .inr (.inr (.inr start))
    · exact .inr (.inl rfl)
    · exact .inl old
    · exact .inr (.inr (.inr inside))
  · intro member
    rcases member with old | rfl | rfl | inside
    · exact .inl (.inr (.inr (.inr (.inr old))))
    · exact .inl (.inr (.inl rfl))
    · exact .inl (.inl rfl)
    · exact .inr inside

theorem hasMove_addAlternative {source target : Nat} {symbol : Symbol} :
    (layout.addAlternative left).body.HasMove source symbol target ↔
      layout.body.HasMove source symbol target ∨
        (left.shift (layout.next + 1)).HasMove source symbol target ∨
          source = layout.next ∧ symbol = .epsilon ∧
            (target = left.start + (layout.next + 1) ∨
              target = (layout.addAlternative left).next) := by
  simp only [addAlternative, hasMove_absorb, hasMove_addMove, start_shift]
  grind

end Layout

/-- What every layout keeps to: its greatest state is the first free number, which is where the
start of the rest goes. -/
structure Layout.Proper (layout : Layout) : Prop where
  built : layout.body.Built
  start_eq : layout.body.start = 0
  accepting_empty : ∀ state, state ∉ layout.body.accepting
  next_mem : layout.next ∈ layout.body.states
  le_next : ∀ state ∈ layout.body.states, state ≤ layout.next
  exit_mem : ∀ exit ∈ layout.exits, ∀ state ∈ exit, state ∈ layout.body.states

namespace Layout.Proper

theorem initial : Layout.initial.Proper where
  built := .singleton 0
  start_eq := rfl
  accepting_empty _ := mem_accepting_singleton
  next_mem := mem_states_singleton.mpr rfl
  le_next state member := Nat.le_of_eq (mem_states_singleton.mp member)
  exit_mem exit member := by cases member

theorem addAlternative
    {layout : Layout} {left : Nfa Nat} (proper : layout.Proper) (built : left.Built) :
    (layout.addAlternative left).Proper := by
  have shifted : (left.shift (layout.next + 1)).Built := built.relabel _
  constructor
  · exact ((proper.built.addMove _ _ _).addMove _ _ _).absorb shifted
  · exact proper.start_eq
  · exact proper.accepting_empty
  · exact (mem_states_addAlternative built.closed).mpr (.inr (.inr (.inl rfl)))
  · intro state member
    have above : layout.next + 1 ≤ (left.shift (layout.next + 1)).greatest := by
      have bound := le_greatest shifted.closed.start_mem
      rw [start_shift] at bound
      omega
    rw [next_addAlternative]
    rcases (mem_states_addAlternative built.closed).mp member with old | rfl | rfl | inside
    · have bound := proper.le_next state old
      omega
    · omega
    · exact Nat.le_refl _
    · have bound := le_greatest inside
      omega
  · intro exit member state among
    rw [mem_states_addAlternative built.closed]
    rcases List.mem_append.mp member with old | new
    · exact .inl (proper.exit_mem exit old state among)
    · rw [List.mem_singleton.mp new] at among
      exact .inr (.inr (.inr (shifted.closed.accepting_mem state among)))

theorem addAlternatives
    {layout : Layout} {lefts : List (Nfa Nat)} (proper : layout.Proper)
    (built : ∀ left ∈ lefts, left.Built) :
    (layout.addAlternatives lefts).Proper :=
  List.foldlRecOn (motive := Proper) lefts Layout.addAlternative proper
    fun _ before left member => before.addAlternative (built left member)

end Layout.Proper

/-- The layout is the first one with the second behind it. -/
structure Layout.Joins (base sub layout : Layout) : Prop where
  next_eq : layout.next = sub.next + base.next
  exits_eq : layout.exits = base.exits ++ sub.exits.map (OrderedSet.image (· + base.next))
  mem_alphabet : ∀ c, c ∈ layout.body.alphabet ↔ c ∈ base.body.alphabet ∨ c ∈ sub.body.alphabet
  mem_states : ∀ state, state ∈ layout.body.states ↔
    state ∈ base.body.states ∨ state ∈ (sub.body.shift base.next).states
  hasMove : ∀ source symbol target, layout.body.HasMove source symbol target ↔
    base.body.HasMove source symbol target ∨
      (sub.body.shift base.next).HasMove source symbol target

namespace Layout.Joins

theorem initial {base : Layout} (proper : base.Proper) : Joins base .initial base where
  next_eq := (Nat.zero_add base.next).symm
  exits_eq := (List.append_nil base.exits).symm
  mem_alphabet c := by simp [Layout.initial]
  mem_states state := by
    have member := proper.next_mem
    simp only [Layout.initial, mem_states_shift, mem_states_singleton]
    grind
  hasMove source symbol target := by simp [Layout.initial]

theorem addAlternative
    {base sub layout : Layout} {left : Nfa Nat}
    (joins : Joins base sub layout) (built : left.Built) :
    Joins base (sub.addAlternative left) (layout.addAlternative left) := by
  have placed : left.shift (layout.next + 1) = (left.shift (sub.next + 1)).shift base.next := by
    rw [shift_shift, joins.next_eq]
    congr 1
    omega
  have next : (layout.addAlternative left).next = (sub.addAlternative left).next + base.next := by
    rw [next_addAlternative, next_addAlternative, placed,
      greatest_shift built.shift.closed.start_mem]
    omega
  constructor
  · exact next
  · rw [exits_addAlternative, exits_addAlternative, joins.exits_eq, placed, List.map_append,
      List.append_assoc]
    rfl
  · intro c
    simp only [mem_alphabet_addAlternative, joins.mem_alphabet, or_assoc]
  · intro state
    rw [mem_states_addAlternative built.closed, joins.mem_states, placed, next, joins.next_eq]
    simp only [mem_states_shift, mem_states_addAlternative built.closed]
    grind
  · intro source symbol target
    rw [hasMove_addAlternative, joins.hasMove, placed, next, joins.next_eq]
    simp only [hasMove_shift, hasMove_addAlternative]
    constructor
    · intro move
      rcases move with (old | ⟨origin, goal, inside, rfl, rfl⟩) |
        ⟨origin, goal, inside, rfl, rfl⟩ | ⟨rfl, rfl, rfl | rfl⟩
      · exact .inl old
      · exact .inr ⟨origin, goal, .inl inside, rfl, rfl⟩
      · exact .inr ⟨origin, goal, .inr (.inl inside), rfl, rfl⟩
      · exact .inr ⟨_, _, .inr (.inr ⟨rfl, rfl, .inl rfl⟩), rfl, by omega⟩
      · exact .inr ⟨_, _, .inr (.inr ⟨rfl, rfl, .inr rfl⟩), rfl, rfl⟩
    · intro move
      rcases move with old |
        ⟨origin, goal, inside | inside | ⟨rfl, rfl, rfl | rfl⟩, rfl, rfl⟩
      · exact .inl (.inl old)
      · exact .inl (.inr ⟨origin, goal, inside, rfl, rfl⟩)
      · exact .inr (.inl ⟨origin, goal, inside, rfl, rfl⟩)
      · exact .inr (.inr ⟨rfl, rfl, .inl (by omega)⟩)
      · exact .inr (.inr ⟨rfl, rfl, .inr rfl⟩)

end Layout.Joins

def addExits (nfa : Nfa Nat) (exits : List (OrderedSet Nat)) (finalOf : Nat → Nat) : Nfa Nat :=
  exits.zipIdx.foldl (fun nfa exit => nfa.addEpsilons exit.1 (finalOf exit.2)) nfa

/-- Adds an epsilon move to each final state from the one that is inside it. -/
def linkFinals (nfa : Nfa Nat) (finalOf : Nat → Nat) (inner : Nat) : Nfa Nat :=
  (List.range inner).foldl
    (fun nfa union => nfa.addMove (finalOf (union + 1)) .epsilon (finalOf union)) nfa

section Finals

variable {nfa : Nfa Nat} {exits : List (OrderedSet Nat)} {finalOf : Nat → Nat} {inner : Nat}

@[simp]
theorem start_addExits : (nfa.addExits exits finalOf).start = nfa.start := by
  apply foldl_eq start
  intro before exit
  exact start_addEpsilons

@[simp]
theorem alphabet_addExits : (nfa.addExits exits finalOf).alphabet = nfa.alphabet := by
  apply foldl_eq alphabet
  intro before exit
  exact alphabet_addEpsilons

@[simp]
theorem accepting_addExits : (nfa.addExits exits finalOf).accepting = nfa.accepting := by
  apply foldl_eq accepting
  intro before exit
  exact accepting_addEpsilons

theorem mem_states_addExits {state : Nat} :
    state ∈ (nfa.addExits exits finalOf).states ↔
      state ∈ nfa.states ∨ ∃ exit index, exits[index]? = some exit ∧
        ∃ source ∈ exit, state = finalOf index ∨ state = source := by
  have each : ∀ (before : Nfa Nat) (exit : OrderedSet Nat × Nat),
      state ∈ (before.addEpsilons exit.1 (finalOf exit.2)).states ↔
        state ∈ before.states ∨ ∃ source ∈ exit.1, state = finalOf exit.2 ∨ state = source := by
    intro before exit
    exact mem_states_addEpsilons
  apply (foldl_iff (state ∈ ·.states) each exits.zipIdx nfa).trans
  simp only [List.mem_zipIdx_iff_getElem?, Prod.exists]

theorem hasMove_addExits {source target : Nat} {symbol : Symbol} :
    (nfa.addExits exits finalOf).HasMove source symbol target ↔
      nfa.HasMove source symbol target ∨ ∃ exit index, exits[index]? = some exit ∧
        source ∈ exit ∧ symbol = .epsilon ∧ target = finalOf index := by
  have each : ∀ (before : Nfa Nat) (exit : OrderedSet Nat × Nat),
      (before.addEpsilons exit.1 (finalOf exit.2)).HasMove source symbol target ↔
        before.HasMove source symbol target ∨
          source ∈ exit.1 ∧ symbol = .epsilon ∧ target = finalOf exit.2 := by
    intro before exit
    exact hasMove_addEpsilons
  apply (foldl_iff (·.HasMove source symbol target) each exits.zipIdx nfa).trans
  simp only [List.mem_zipIdx_iff_getElem?, Prod.exists]

theorem Built.addExits (built : nfa.Built) : (nfa.addExits exits finalOf).Built :=
  List.foldlRecOn exits.zipIdx _ built fun _ before _ _ => before.addEpsilons

@[simp]
theorem start_linkFinals : (nfa.linkFinals finalOf inner).start = nfa.start := by
  apply foldl_eq start
  intro before union
  rfl

@[simp]
theorem alphabet_linkFinals : (nfa.linkFinals finalOf inner).alphabet = nfa.alphabet := by
  apply foldl_eq alphabet
  intro before union
  rfl

@[simp]
theorem accepting_linkFinals : (nfa.linkFinals finalOf inner).accepting = nfa.accepting := by
  apply foldl_eq accepting
  intro before union
  rfl

theorem mem_states_linkFinals {state : Nat} :
    state ∈ (nfa.linkFinals finalOf inner).states ↔
      state ∈ nfa.states ∨ ∃ union ∈ List.range inner,
        state = finalOf union ∨ state = finalOf (union + 1) := by
  have each : ∀ (before : Nfa Nat) (union : Nat),
      state ∈ (before.addMove (finalOf (union + 1)) .epsilon (finalOf union)).states ↔
        state ∈ before.states ∨ (state = finalOf union ∨ state = finalOf (union + 1)) := by
    intro before union
    rw [mem_states_addMove, ← or_assoc, or_comm]
  exact foldl_iff (state ∈ ·.states) each (List.range inner) nfa

theorem hasMove_linkFinals {source target : Nat} {symbol : Symbol} :
    (nfa.linkFinals finalOf inner).HasMove source symbol target ↔
      nfa.HasMove source symbol target ∨ ∃ union ∈ List.range inner,
        source = finalOf (union + 1) ∧ symbol = .epsilon ∧ target = finalOf union := by
  have each : ∀ (before : Nfa Nat) (union : Nat),
      (before.addMove (finalOf (union + 1)) .epsilon (finalOf union)).HasMove source symbol target ↔
        before.HasMove source symbol target ∨
          (source = finalOf (union + 1) ∧ symbol = .epsilon ∧ target = finalOf union) := by
    intro before union
    rw [hasMove_addMove, or_comm]
  exact foldl_iff (·.HasMove source symbol target) each (List.range inner) nfa

theorem Built.linkFinals (built : nfa.Built) : (nfa.linkFinals finalOf inner).Built :=
  List.foldlRecOn (List.range inner) _ built fun _ before _ _ => before.addMove _ _ _

end Finals

/-- The first of the final states behind a layout and the last alternative. -/
def Layout.firstFinal (layout : Layout) (last : Nfa Nat) : Nat :=
  (last.shift layout.next).greatest + 1

/-- The automaton of a chain whose left alternatives have been laid out. -/
def Layout.close (layout : Layout) (last : Nfa Nat) (inner : Nat) : Nfa Nat :=
  let finalOf := fun union => layout.firstFinal last + (inner - union)
  let exits := layout.exits ++ [(last.shift layout.next).accepting]
  (((layout.body.absorb (last.shift layout.next)).addExits exits fun index =>
    finalOf (min index inner)).linkFinals finalOf inner).markAccepting (finalOf 0)

theorem alternatives_cons (left : Nfa Nat) (lefts : List (Nfa Nat)) (last : Nfa Nat) :
    alternatives (left :: lefts) last =
      (Layout.initial.addAlternatives (left :: lefts)).close last lefts.length := rfl

namespace Layout

def allExits (layout : Layout) (last : Nfa Nat) : List (OrderedSet Nat) :=
  layout.exits ++ [(last.shift layout.next).accepting]

variable {layout : Layout} {last : Nfa Nat} {inner : Nat}

theorem start_close (proper : layout.Proper) : (layout.close last inner).start = 0 := by
  simp [close, proper.start_eq]

theorem mem_alphabet_close {c : Char} :
    c ∈ (layout.close last inner).alphabet ↔ c ∈ layout.body.alphabet ∨ c ∈ last.alphabet := by
  simp [close]

theorem mem_accepting_close {state : Nat} (proper : layout.Proper) :
    state ∈ (layout.close last inner).accepting ↔ state = layout.firstFinal last + inner := by
  simp [close, proper.accepting_empty]

theorem Proper.built_close (proper : layout.Proper) (built : last.Built) :
    (layout.close last inner).Built :=
  .markAccepting _ (.linkFinals (.addExits (.absorb proper.built built.shift)))

theorem Proper.mem_of_mem_allExits
    {exit : OrderedSet Nat} {state : Nat} (proper : layout.Proper) (built : last.Built)
    (member : exit ∈ layout.allExits last) (among : state ∈ exit) :
    state ∈ layout.body.states ∨ state ∈ (last.shift layout.next).states := by
  rcases List.mem_append.mp member with before | final
  · exact .inl (proper.exit_mem exit before state among)
  · rw [List.mem_singleton.mp final] at among
    exact .inr (built.shift.closed.accepting_mem state among)

theorem mem_states_close {state : Nat} (proper : layout.Proper) (built : last.Built) :
    state ∈ (layout.close last inner).states ↔
      state ∈ layout.body.states ∨ state ∈ (last.shift layout.next).states ∨
        layout.firstFinal last ≤ state ∧ state ≤ layout.firstFinal last + inner := by
  simp only [close, mem_states_markAccepting, mem_states_linkFinals, mem_states_addExits,
    mem_states_absorb, List.mem_range]
  constructor
  · intro member
    rcases member with rfl | ((old | ⟨exit, index, listed, source, among, rfl | rfl⟩) |
      ⟨union, below, rfl | rfl⟩)
    · omega
    · rw [← or_assoc]
      exact .inl old
    · omega
    · rw [← or_assoc]
      exact .inl (proper.mem_of_mem_allExits built (List.mem_of_getElem? listed) among)
    · omega
    · omega
  · intro member
    rcases member with old | last | ⟨above, below⟩
    · exact .inr (.inl (.inl (.inl old)))
    · exact .inr (.inl (.inl (.inr last)))
    · by_cases final : state = layout.firstFinal last + inner
      · exact .inl final
      · refine .inr (.inr ⟨layout.firstFinal last + inner - state - 1, ?_, .inr ?_⟩)
        · omega
        · omega

theorem hasMove_close {source target : Nat} {symbol : Symbol} :
    (layout.close last inner).HasMove source symbol target ↔
      layout.body.HasMove source symbol target ∨
        (last.shift layout.next).HasMove source symbol target ∨
          symbol = .epsilon ∧
            ((∃ exit index, (layout.allExits last)[index]? = some exit ∧ source ∈ exit ∧
                target = layout.firstFinal last + (inner - index)) ∨
              layout.firstFinal last ≤ source ∧ source < layout.firstFinal last + inner ∧
                target = source + 1) := by
  have finalOf : ∀ index, inner - min index inner = inner - index := by
    intro index
    omega
  simp only [close, hasMove_markAccepting, hasMove_linkFinals, hasMove_addExits, hasMove_absorb,
    List.mem_range, finalOf]
  constructor
  · intro move
    rcases move with ((body | inLast) | ⟨exit, index, listed, among, rfl, rfl⟩) |
      ⟨union, below, rfl, rfl, rfl⟩
    · exact .inl body
    · exact .inr (.inl inLast)
    · exact .inr (.inr ⟨rfl, .inl ⟨exit, index, listed, among, rfl⟩⟩)
    · exact .inr (.inr ⟨rfl, .inr (by omega)⟩)
  · intro move
    rcases move with body | inLast |
      ⟨rfl, ⟨exit, index, listed, among, rfl⟩ | ⟨above, below, rfl⟩⟩
    · exact .inl (.inl (.inl body))
    · exact .inl (.inl (.inr inLast))
    · exact .inl (.inr ⟨exit, index, listed, among, rfl, rfl⟩)
    · refine .inr ⟨layout.firstFinal last + inner - source - 1, ?_, ?_, rfl, ?_⟩
      · omega
      · omega
      · omega

theorem greatest_close (proper : layout.Proper) (built : last.Built) :
    (layout.close last inner).greatest = layout.firstFinal last + inner := by
  have start : (last.shift layout.next).start ∈ (last.shift layout.next).states :=
    built.shift.closed.start_mem
  have above : layout.next < layout.firstFinal last := by
    have bound := le_greatest start
    rw [start_shift] at bound
    rw [firstFinal]
    omega
  apply greatest_eq
  · exact (mem_states_close proper built).mpr (.inr (.inr (by omega)))
  · intro other member
    rcases (mem_states_close proper built).mp member with body | inLast | ⟨_, below⟩
    · have bound := proper.le_next other body
      omega
    · have bound := le_greatest inLast
      rw [firstFinal]
      omega
    · exact below

theorem hasMove_shift_close {offset source target : Nat} {symbol : Symbol} :
    ((layout.close last inner).shift offset).HasMove source symbol target ↔
      (layout.body.shift offset).HasMove source symbol target ∨
        ((last.shift layout.next).shift offset).HasMove source symbol target ∨
          symbol = .epsilon ∧
            ((∃ exit index,
                ((layout.allExits last).map (OrderedSet.image (· + offset)))[index]? = some exit ∧
                  source ∈ exit ∧
                    target = layout.firstFinal last + offset + (inner - index)) ∨
              layout.firstFinal last + offset ≤ source ∧
                source < layout.firstFinal last + offset + inner ∧ target = source + 1) := by
  simp only [hasMove_shift, hasMove_close, List.getElem?_map, Option.map_eq_some_iff]
  constructor
  · intro move
    obtain ⟨origin, goal, move, rfl, rfl⟩ := move
    rcases move with body | inLast |
      ⟨rfl, ⟨exit, index, listed, among, rfl⟩ | ⟨above, below, rfl⟩⟩
    · exact .inl ⟨origin, goal, body, rfl, rfl⟩
    · exact .inr (.inl ⟨origin, goal, inLast, rfl, rfl⟩)
    · refine .inr (.inr ⟨rfl, .inl ⟨_, index, ⟨exit, listed, rfl⟩, ?_, by omega⟩⟩)
      exact OrderedSet.mem_image.mpr ⟨origin, among, rfl⟩
    · exact .inr (.inr ⟨rfl, .inr (by omega)⟩)
  · intro move
    rcases move with ⟨origin, goal, body, rfl, rfl⟩ | ⟨origin, goal, inLast, rfl, rfl⟩ |
      ⟨rfl, ⟨_, index, ⟨exit, listed, rfl⟩, among, rfl⟩ | ⟨above, below, rfl⟩⟩
    · exact ⟨origin, goal, .inl body, rfl, rfl⟩
    · exact ⟨origin, goal, .inr (.inl inLast), rfl, rfl⟩
    · obtain ⟨origin, inside, rfl⟩ := OrderedSet.mem_image.mp among
      refine ⟨origin, _, .inr (.inr ⟨rfl, .inl ⟨exit, index, listed, inside, rfl⟩⟩), rfl, ?_⟩
      omega
    · refine ⟨source - offset, source + 1 - offset, .inr (.inr ⟨rfl, .inr ?_⟩), ?_, ?_⟩
      · omega
      · omega
      · omega

namespace Joins

variable {base sub : Layout}

theorem addAlternatives
    {lefts : List (Nfa Nat)} (joins : Joins base sub layout) (built : ∀ left ∈ lefts, left.Built) :
    Joins base (sub.addAlternatives lefts) (layout.addAlternatives lefts) := by
  induction lefts generalizing sub layout with
  | nil => exact joins
  | cons left lefts ih =>
      apply ih (joins.addAlternative (built left List.mem_cons_self))
      intro other member
      exact built other (List.mem_cons_of_mem left member)

theorem shift_last (joins : Joins base sub layout) :
    last.shift layout.next = (last.shift sub.next).shift base.next := by
  rw [shift_shift, joins.next_eq]

theorem allExits_eq (joins : Joins base sub layout) :
    layout.allExits last =
      base.exits ++ (sub.allExits last).map (OrderedSet.image (· + base.next)) := by
  rw [allExits, allExits, joins.exits_eq, joins.shift_last, List.map_append,
    List.append_assoc]
  rfl

theorem firstFinal_eq (joins : Joins base sub layout) (built : last.Built) :
    layout.firstFinal last = sub.firstFinal last + base.next := by
  rw [firstFinal, firstFinal, joins.shift_last, greatest_shift built.shift.closed.start_mem]
  omega

theorem firstFinal_close (subProper : sub.Proper) (built : last.Built) :
    base.firstFinal (sub.close last inner) = sub.firstFinal last + inner + base.next + 1 := by
  have subBuilt : (sub.close last inner).Built := subProper.built_close built
  rw [firstFinal, greatest_shift subBuilt.closed.start_mem, greatest_close subProper built]

theorem mem_states_close_iff
    {state : Nat} (joins : Joins base sub layout) (baseProper : base.Proper)
    (subProper : sub.Proper) (proper : layout.Proper) (built : last.Built) :
    state ∈ (layout.close last (inner + 1)).states ↔
      state ∈ (base.close (sub.close last inner) 0).states := by
  have subBuilt : (sub.close last inner).Built := subProper.built_close built
  rw [mem_states_close proper built, mem_states_close baseProper subBuilt, joins.mem_states,
    joins.shift_last, joins.firstFinal_eq built, firstFinal_close subProper built]
  simp only [mem_states_shift, mem_states_close subProper built]
  constructor
  · intro member
    rcases member with (old | ⟨origin, inside, rfl⟩) | ⟨origin, inside, rfl⟩ | ⟨above, below⟩
    · exact .inl old
    · exact .inr (.inl ⟨origin, .inl inside, rfl⟩)
    · exact .inr (.inl ⟨origin, .inr (.inl inside), rfl⟩)
    · by_cases final : state = sub.firstFinal last + inner + base.next + 1
      · exact .inr (.inr (by omega))
      · refine .inr (.inl ⟨state - base.next, .inr (.inr ?_), ?_⟩)
        · omega
        · omega
  · intro member
    rcases member with old | ⟨origin, inside | inside | ⟨above, below⟩, rfl⟩ | ⟨above, below⟩
    · exact .inl (.inl old)
    · exact .inl (.inr ⟨origin, inside, rfl⟩)
    · exact .inr (.inl ⟨origin, inside, rfl⟩)
    · exact .inr (.inr (by omega))
    · exact .inr (.inr (by omega))

theorem hasMove_close_iff
    {exit : OrderedSet Nat} {source target : Nat} {symbol : Symbol}
    (joins : Joins base sub layout) (single : base.exits = [exit])
    (subProper : sub.Proper) (built : last.Built) :
    (layout.close last (inner + 1)).HasMove source symbol target ↔
      (base.close (sub.close last inner) 0).HasMove source symbol target := by
  have outerExits : base.allExits (sub.close last inner) =
      [exit, ((sub.close last inner).shift base.next).accepting] := by
    rw [allExits, single]
    rfl
  have closedFinal : ∀ {state : Nat},
      state ∈ ((sub.close last inner).shift base.next).accepting ↔
        state = sub.firstFinal last + inner + base.next := by
    intro state
    simp only [mem_accepting_shift, mem_accepting_close subProper, exists_eq_left]
    exact eq_comm
  rw [hasMove_close, hasMove_close, joins.hasMove, joins.shift_last,
    joins.firstFinal_eq built, firstFinal_close subProper built, hasMove_shift_close,
    joins.allExits_eq, single, outerExits]
  constructor
  · intro move
    rcases move with (old | inside) | inside |
      ⟨rfl, ⟨other, index, listed, among, rfl⟩ | ⟨above, below, rfl⟩⟩
    · exact .inl old
    · exact .inr (.inl (.inl inside))
    · exact .inr (.inl (.inr (.inl inside)))
    · cases index with
      | zero => exact .inr (.inr ⟨rfl, .inl ⟨other, 0, listed, among, by omega⟩⟩)
      | succ index =>
          exact .inr (.inl (.inr (.inr ⟨rfl, .inl ⟨other, index, listed, among, by omega⟩⟩)))
    · by_cases final : source = sub.firstFinal last + inner + base.next
      · exact .inr (.inr ⟨rfl, .inl ⟨_, 1, rfl, closedFinal.mpr final, by omega⟩⟩)
      · exact .inr (.inl (.inr (.inr ⟨rfl, .inr (by omega)⟩)))
  · intro move
    rcases move with old | (inside | inside |
      ⟨rfl, ⟨other, index, listed, among, rfl⟩ | ⟨above, below, rfl⟩⟩) |
        ⟨rfl, ⟨other, index, listed, among, rfl⟩ | ⟨above, below, rfl⟩⟩
    · exact .inl (.inl old)
    · exact .inl (.inr inside)
    · exact .inr (.inl inside)
    · exact .inr (.inr ⟨rfl, .inl ⟨other, index + 1, listed, among, by omega⟩⟩)
    · exact .inr (.inr ⟨rfl, .inr (by omega)⟩)
    · cases index with
      | zero => exact .inr (.inr ⟨rfl, .inl ⟨other, 0, listed, among, by omega⟩⟩)
      | succ index =>
          cases index with
          | zero =>
              cases listed
              have final := closedFinal.mp among
              exact .inr (.inr ⟨rfl, .inr (by omega)⟩)
          | succ index => cases listed
    · omega

/-- Closing a layout that lies behind a single alternative, and then closing around it, closes both
at once. -/
theorem close_eq_close
    {exit : OrderedSet Nat} (joins : Joins base sub layout) (single : base.exits = [exit])
    (baseProper : base.Proper) (subProper : sub.Proper) (proper : layout.Proper)
    (built : last.Built) :
    layout.close last (inner + 1) = base.close (sub.close last inner) 0 := by
  have subBuilt : (sub.close last inner).Built := subProper.built_close built
  apply Closed.ext (proper.built_close built).closed (baseProper.built_close subBuilt).closed
  · intro c
    simp only [mem_alphabet_close, joins.mem_alphabet, or_assoc]
  · intro state
    exact joins.mem_states_close_iff baseProper subProper proper built
  · rw [start_close proper, start_close baseProper]
  · intro source symbol target
    exact joins.hasMove_close_iff single subProper built
  · intro state
    rw [mem_accepting_close proper, mem_accepting_close baseProper, joins.firstFinal_eq built,
      firstFinal_close subProper built]
    omega

end Joins

section Single

variable {left right : Nfa Nat}

theorem mem_states_close_initial
    {state : Nat} (built : left.Built) (rightBuilt : right.Built) (zero : right.start = 0) :
    state ∈ ((Layout.initial.addAlternative left).close right 0).states ↔
      state ∈ (left.either right).states := by
  have next : (Layout.initial.addAlternative left).next = ((left.shift 1).above right).start := by
    rw [above, start_shift, zero, Nat.zero_add]
    rfl
  have startMember : ((left.shift 1).above right).start ∈ ((left.shift 1).above right).states :=
    rightBuilt.shift.closed.start_mem
  have firstFinal : (Layout.initial.addAlternative left).firstFinal right =
      finalOfEither left right := rfl
  have placed : right.shift (Layout.initial.addAlternative left).next =
      (left.shift 1).above right := rfl
  rw [mem_states_close (Proper.initial.addAlternative built) rightBuilt, firstFinal, placed,
    mem_states_addAlternative built.closed, mem_states_either built rightBuilt, next]
  constructor
  · intro member
    rcases member with (initial | rfl | rfl | inLeft) | inRight | ⟨above, below⟩
    · exact .inl (mem_states_singleton.mp initial)
    · exact .inl rfl
    · exact .inr (.inr (.inl startMember))
    · exact .inr (.inl inLeft)
    · exact .inr (.inr (.inl inRight))
    · exact .inr (.inr (.inr (Nat.le_antisymm below above)))
  · intro member
    rcases member with rfl | inLeft | inRight | rfl
    · exact .inl (.inr (.inl rfl))
    · exact .inl (.inr (.inr (.inr inLeft)))
    · exact .inr (.inl inRight)
    · exact .inr (.inr ⟨Nat.le_refl _, Nat.le_refl _⟩)

theorem hasMove_close_initial
    {source target : Nat} {symbol : Symbol} (zero : right.start = 0) :
    ((Layout.initial.addAlternative left).close right 0).HasMove source symbol target ↔
      (left.either right).HasMove source symbol target := by
  have next : (Layout.initial.addAlternative left).next = ((left.shift 1).above right).start := by
    rw [above, start_shift, zero, Nat.zero_add]
    rfl
  have firstFinal : (Layout.initial.addAlternative left).firstFinal right =
      finalOfEither left right := rfl
  have placed : right.shift (Layout.initial.addAlternative left).next =
      (left.shift 1).above right := rfl
  have exits : (Layout.initial.addAlternative left).allExits right =
      [(left.shift 1).accepting, ((left.shift 1).above right).accepting] := rfl
  rw [hasMove_close, hasMove_either, hasMove_addAlternative, firstFinal, placed, exits, next]
  constructor
  · intro move
    rcases move with (initial | inLeft | ⟨rfl, rfl, target⟩) | inRight |
      ⟨rfl, ⟨exit, index, listed, among, rfl⟩ | bounds⟩
    · exact absurd initial hasMove_singleton
    · exact .inl inLeft
    · exact .inr (.inr ⟨rfl, .inl ⟨rfl, target⟩⟩)
    · exact .inr (.inl inRight)
    · cases index with
      | zero =>
          cases listed
          exact .inr (.inr ⟨rfl, .inr ⟨.inl among, by omega⟩⟩)
      | succ index =>
          cases index with
          | zero =>
              cases listed
              exact .inr (.inr ⟨rfl, .inr ⟨.inr among, by omega⟩⟩)
          | succ index => cases listed
    · omega
  · intro move
    rcases move with inLeft | inRight | ⟨rfl, ⟨rfl, target⟩ | ⟨inLeft | inRight, rfl⟩⟩
    · exact .inl (.inr (.inl inLeft))
    · exact .inr (.inl inRight)
    · exact .inl (.inr (.inr ⟨rfl, rfl, target⟩))
    · exact .inr (.inr ⟨rfl, .inl ⟨_, 0, rfl, inLeft, by omega⟩⟩)
    · exact .inr (.inr ⟨rfl, .inl ⟨_, 1, rfl, inRight, by omega⟩⟩)

/-- Closing a layout of a single alternative is joining it and the rest. -/
theorem close_initial_eq_either
    (built : left.Built) (rightBuilt : right.Built) (zero : right.start = 0) :
    (Layout.initial.addAlternative left).close right 0 = left.either right := by
  have proper := Proper.initial.addAlternative built
  apply Closed.ext (proper.built_close rightBuilt).closed (built.either rightBuilt).closed
  · intro c
    simp [mem_alphabet_close, Layout.initial]
  · intro state
    exact mem_states_close_initial built rightBuilt zero
  · rw [start_close proper, start_either]
  · intro source symbol target
    exact hasMove_close_initial zero
  · intro state
    rw [mem_accepting_close proper, mem_accepting_either, Nat.add_zero]
    rfl

end Single

end Layout

/-- A chain is its first alternative joined with the rest of the chain. -/
theorem alternatives_cons_eq_either
    {left last : Nfa Nat} {lefts : List (Nfa Nat)} (built : left.Built)
    (leftsBuilt : ∀ other ∈ lefts, other.Built) (lastBuilt : last.Built) (zero : last.start = 0) :
    alternatives (left :: lefts) last = left.either (alternatives lefts last) := by
  have baseProper := Layout.Proper.initial.addAlternative built
  cases lefts with
  | nil => exact Layout.close_initial_eq_either built lastBuilt zero
  | cons next lefts =>
      have subProper := Layout.Proper.initial.addAlternatives leftsBuilt
      have joins := (Layout.Joins.initial baseProper).addAlternatives leftsBuilt
      rw [alternatives_cons next lefts, ← Layout.close_initial_eq_either built
        (subProper.built_close lastBuilt) (Layout.start_close subProper)]
      exact joins.close_eq_close rfl baseProper subProper
        (baseProper.addAlternatives leftsBuilt) lastBuilt

/-- A chain that is laid out in one pass is joined from its end. -/
theorem alternatives_eq_foldr
    {lefts : List (Nfa Nat)} {last : Nfa Nat} (built : ∀ left ∈ lefts, left.Built)
    (lastBuilt : last.Built) (zero : last.start = 0) :
    alternatives lefts last = lefts.foldr either last := by
  induction lefts with
  | nil => rfl
  | cons left lefts ih =>
      have leftsBuilt : ∀ other ∈ lefts, other.Built := fun other member =>
        built other (List.mem_cons_of_mem left member)
      rw [alternatives_cons_eq_either (built left List.mem_cons_self) leftsBuilt lastBuilt zero,
        ih leftsBuilt, List.foldr_cons]

end PatternAutomata.Nfa
