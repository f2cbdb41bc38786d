import Mathlib.Data.List.Sort
import PatternAutomata.Nfa.Built
import PatternAutomata.Nfa.Entry
import PatternAutomata.Proofs.Text.Entry

/-!
# What the text of an automaton with epsilon moves leaves open

The text is read back as the entries of the states, and these settle the automaton up to one mistake:
moves on the character that is written for epsilon look like epsilon moves.  A line keeps its place
in the mistake only if it is the last of its state.
-/

namespace PatternAutomata.Nfa

variable {first second : Nfa Nat}

theorem text_entry (nfa : Nfa Nat) (state : Nat) :
    (nfa.entry state).text = nfa.stateListing state := by
  rw [Text.Entry.text_eq, entry, stateListing, Row.written, List.flatMap_map]

/-- The text is written entry by entry. -/
theorem listing_eq (nfa : Nfa Nat) :
    nfa.listing = (nfa.states.toList.map nfa.entry).flatMap Text.Entry.text := by
  rw [List.flatMap_map, listing]
  simp only [text_entry]

theorem listing_eq_iff_entries :
    first.listing = second.listing ↔
      first.states.toList.map first.entry = second.states.toList.map second.entry := by
  rw [listing_eq, listing_eq]
  constructor
  · exact Text.eq_of_flatMap_text_eq
  · intro same
    rw [same]

section Rows

abbrev Listed := List (Symbol × OrderedSet Nat)

/-- The symbols of the listing ascend. -/
def Ascending (moves : Listed) : Prop :=
  moves.Pairwise fun move later => compare move.1 later.1 = .lt

/-- The last line of the first listing is on the character for epsilon, that of the second on epsilon,
and nothing else tells them apart. -/
def LastMistaken (moves others : Listed) : Prop :=
  ∃ shared targets,
    moves = shared ++ [(.char 'ε', targets)] ∧ others = shared ++ [(.epsilon, targets)]

theorem eq_or_mistaken_of_glyph_eq {symbol other : Symbol} (same : symbol.glyph = other.glyph) :
    symbol = other ∨ (symbol = .char 'ε' ∧ other = .epsilon) ∨
      (symbol = .epsilon ∧ other = .char 'ε') := by
  cases symbol with
  | char c =>
      cases other with
      | char d => exact .inl (congrArg _ same)
      | epsilon => exact .inr (.inl ⟨congrArg _ same, rfl⟩)
  | epsilon =>
      cases other with
      | char d => exact .inr (.inr ⟨rfl, congrArg _ same.symm⟩)
      | epsilon => exact .inl rfl

/-- Nothing comes after a line on epsilon. -/
theorem Ascending.eq_nil {targets : OrderedSet Nat} {rest : Listed}
    (ascending : Ascending ((.epsilon, targets) :: rest)) : rest = [] := by
  cases rest with
  | nil => rfl
  | cons move rest =>
      have above := List.rel_of_pairwise_cons ascending List.mem_cons_self
      obtain ⟨symbol, _⟩ := move
      cases symbol <;> cases above

/-- Rows that are written alike are equal up to the mistake about their last lines. -/
theorem eq_or_lastMistaken {moves others : Listed}
    (ascending : Ascending moves) (otherAscending : Ascending others)
    (same : moves.map (fun (symbol, targets) => (symbol.glyph, targets.toList)) =
      others.map fun (symbol, targets) => (symbol.glyph, targets.toList)) :
    moves = others ∨ LastMistaken moves others ∨ LastMistaken others moves := by
  induction moves generalizing others with
  | nil => exact .inl (List.map_eq_nil_iff.mp same.symm).symm
  | cons move moves ih =>
      cases others with
      | nil => cases same
      | cons other others =>
          obtain ⟨symbol, targets⟩ := move
          obtain ⟨otherSymbol, otherTargets⟩ := other
          simp only [List.map_cons, List.cons.injEq, Prod.mk.injEq] at same
          obtain ⟨⟨glyph, listed⟩, rest⟩ := same
          obtain rfl : targets = otherTargets := Std.ExtTreeSet.toList_inj.mp listed
          rcases eq_or_mistaken_of_glyph_eq glyph with rfl | ⟨rfl, rfl⟩ | ⟨rfl, rfl⟩
          · rcases ih ascending.of_cons otherAscending.of_cons rest with
              rfl | ⟨shared, last, rfl, rfl⟩ | ⟨shared, last, rfl, rfl⟩
            · exact .inl rfl
            · exact .inr (.inl ⟨(symbol, targets) :: shared, last, rfl, rfl⟩)
            · exact .inr (.inr ⟨(symbol, targets) :: shared, last, rfl, rfl⟩)
          · obtain rfl := otherAscending.eq_nil
            obtain rfl : moves = [] := List.map_eq_nil_iff.mp rest
            exact .inr (.inl ⟨[], targets, rfl, rfl⟩)
          · obtain rfl := ascending.eq_nil
            obtain rfl : others = [] := List.map_eq_nil_iff.mp rest.symm
            exact .inr (.inr ⟨[], targets, rfl, rfl⟩)

/-- The symbol that a reader takes the symbol for. -/
def misread (symbol : Symbol) : Symbol :=
  if symbol = .char 'ε' then .epsilon else symbol

theorem glyph_misread (symbol : Symbol) : (misread symbol).glyph = symbol.glyph := by
  rw [misread]
  split
  · next same => exact same ▸ rfl
  · rfl

/-- Misreading keeps the order of the symbols up to the character for epsilon. -/
theorem compare_misread {symbol later : Symbol} (below : compare symbol later = .lt)
    (bounded : compare later (.char 'ε') ≠ .gt) :
    compare (misread symbol) (misread later) = .lt := by
  have first : symbol ≠ .char 'ε' := by
    rintro rfl
    exact bounded (Std.OrientedCmp.gt_of_lt below)
  rw [misread, if_neg first, misread]
  split
  · cases symbol with
    | char c => rfl
    | epsilon =>
        cases later with
        | char d => cases below
        | epsilon => cases below
  · exact below

theorem ascending_toList (row : Row Nat) : Ascending row.toList :=
  Std.ExtTreeMap.ordered_keys_toList

/-- Ascending listings with the same lines are the same. -/
theorem Ascending.eq_of_mem_iff {moves others : Listed}
    (ascending : Ascending moves) (otherAscending : Ascending others)
    (same : ∀ move, move ∈ moves ↔ move ∈ others) : moves = others := by
  let precedes (move later : Symbol × OrderedSet Nat) : Prop := compare move.1 later.1 = .lt
  have irreflexive : Std.Irrefl precedes := by
    constructor
    intro move below
    exact absurd (Std.ReflCmp.compare_self.symm.trans below) nofun
  have antisymmetric : Std.Antisymm precedes := by
    constructor
    intro move later below above
    exact absurd (above.symm.trans (Std.OrientedCmp.gt_of_lt below)) nofun
  exact List.Pairwise.eq_of_mem_iff ascending otherAscending same

end Rows

section States

variable {source : Nat}

theorem getElem?_getD_rows {nfa : Nfa Nat} {symbol : Symbol} :
    (nfa.rows.getD source ∅)[symbol]? = nfa.targets? source symbol :=
  OrderedMap.getElem?_getD_empty

theorem mem_toList_row {nfa : Nfa Nat} {symbol : Symbol} {targets : OrderedSet Nat} :
    (symbol, targets) ∈ (nfa.rows.getD source ∅).toList ↔
      nfa.targets? source symbol = some targets := by
  rw [Std.ExtTreeMap.mem_toList_iff_getElem?_eq_some, getElem?_getD_rows]

/-- Rows that are told apart only by their last lines. -/
theorem LastMistaken.takesGlyphForEpsilon
    (mistaken : LastMistaken (first.rows.getD source ∅).toList (second.rows.getD source ∅).toList) :
    TakesGlyphForEpsilon source first second := by
  obtain ⟨shared, last, own, other⟩ := mistaken
  have ascending : Ascending (shared ++ [(.char 'ε', last)]) := own ▸ ascending_toList _
  have below : ∀ {symbol targets}, (symbol, targets) ∈ shared → compare symbol (.char 'ε') = .lt :=
    fun member => (List.pairwise_append.mp ascending).2.2 _ member _ List.mem_cons_self
  have firstMoves : ∀ {symbol targets}, first.targets? source symbol = some targets ↔
      (symbol, targets) ∈ shared ∨ symbol = .char 'ε' ∧ targets = last := by
    intro symbol targets
    rw [← mem_toList_row, own]
    simp
  have secondMoves : ∀ {symbol targets}, second.targets? source symbol = some targets ↔
      (symbol, targets) ∈ shared ∨ symbol = .epsilon ∧ targets = last := by
    intro symbol targets
    rw [← mem_toList_row, other]
    simp
  constructor
  · rw [firstMoves.mpr (.inr ⟨rfl, rfl⟩), secondMoves.mpr (.inr ⟨rfl, rfl⟩)]
  · apply Option.eq_none_iff_forall_ne_some.mpr
    intro targets move
    rcases firstMoves.mp move with member | ⟨same, _⟩
    · exact absurd (below member) nofun
    · cases same
  · apply Option.eq_none_iff_forall_ne_some.mpr
    intro targets move
    rcases secondMoves.mp move with member | ⟨same, _⟩
    · exact absurd (Std.ReflCmp.compare_self.symm.trans (below member)) nofun
    · cases same
  · intro c different
    apply Option.ext
    intro targets
    rw [firstMoves, secondMoves]
    simp [different]
  · intro c above
    apply Option.eq_none_iff_forall_ne_some.mpr
    intro targets move
    rcases firstMoves.mp move with member | ⟨same, _⟩
    · have under : c < 'ε' := compareOfLessAndEq_eq_lt.mp (below member)
      exact absurd under (Char.lt_asymm above)
    · cases same
      exact absurd above (Char.lt_irrefl _)

namespace TakesGlyphForEpsilon

variable {symbol : Symbol} {targets : OrderedSet Nat}

theorem misread_move
    (takes : TakesGlyphForEpsilon source first second)
    (move : first.targets? source symbol = some targets) :
    second.targets? source (misread symbol) = some targets := by
  cases symbol with
  | epsilon => cases takes.targets?_epsilon.symm.trans move
  | char c =>
      rw [misread]
      by_cases glyph : c = 'ε'
      · subst glyph
        rwa [if_pos rfl, ← takes.targets?_char]
      · rwa [if_neg (by simpa using glyph), ← takes.targets?_eq c glyph]

theorem exists_misread_move
    (takes : TakesGlyphForEpsilon source first second)
    (move : second.targets? source symbol = some targets) :
    ∃ origin, misread origin = symbol ∧ first.targets? source origin = some targets := by
  cases symbol with
  | epsilon => exact ⟨.char 'ε', if_pos rfl, takes.targets?_char.trans move⟩
  | char c =>
      have different : c ≠ 'ε' := by
        rintro rfl
        cases takes.other_targets?_char.symm.trans move
      exact ⟨.char c, if_neg (by simpa using different), (takes.targets?_eq c different).trans move⟩

theorem compare_ne_gt
    (takes : TakesGlyphForEpsilon source first second)
    (move : first.targets? source symbol = some targets) :
    compare symbol (.char 'ε') ≠ .gt := by
  cases symbol with
  | epsilon => cases takes.targets?_epsilon.symm.trans move
  | char c =>
      intro above
      rw [Symbol.compare_char] at above
      have before : compare 'ε' c = .lt := Std.OrientedCmp.lt_of_gt above
      have after : 'ε' < c := compareOfLessAndEq_eq_lt.mp before
      cases (takes.targets?_of_lt c after).symm.trans move

/-- A reader who takes the character for epsilon finds the moves of the second automaton. -/
theorem map_misread_eq (takes : TakesGlyphForEpsilon source first second) :
    (first.rows.getD source ∅).toList.map (fun (symbol, targets) => (misread symbol, targets)) =
      (second.rows.getD source ∅).toList := by
  apply Ascending.eq_of_mem_iff
  · apply List.pairwise_map.mpr
    apply (ascending_toList _).imp_of_mem
    intro move later _ member below
    exact compare_misread below (takes.compare_ne_gt (mem_toList_row.mp member))
  · exact ascending_toList _
  · rintro ⟨symbol, targets⟩
    rw [mem_toList_row, List.mem_map]
    constructor
    · rintro ⟨⟨origin, _⟩, member, same⟩
      cases same
      exact takes.misread_move (mem_toList_row.mp member)
    · intro move
      obtain ⟨origin, rfl, original⟩ := takes.exists_misread_move move
      exact ⟨(origin, targets), mem_toList_row.mpr original, rfl⟩

/-- Moves on the character for epsilon are written like moves on epsilon. -/
theorem written_eq (takes : TakesGlyphForEpsilon source first second) :
    (first.rows.getD source ∅).written = (second.rows.getD source ∅).written := by
  rw [Row.written, Row.written, ← takes.map_misread_eq, List.map_map]
  simp only [Function.comp_def, glyph_misread]

end TakesGlyphForEpsilon

theorem SameMoves.getD_rows_eq (same : SameMoves source first second) :
    first.rows.getD source ∅ = second.rows.getD source ∅ := by
  apply Std.ExtTreeMap.ext_getElem?
  intro symbol
  rw [getElem?_getD_rows, getElem?_getD_rows, same symbol]

theorem sameMoves_of_toList_eq
    (same : (first.rows.getD source ∅).toList = (second.rows.getD source ∅).toList) :
    SameMoves source first second := by
  intro symbol
  apply Option.ext
  intro targets
  rw [← mem_toList_row, ← mem_toList_row, same]

/-- The moves of a state are written alike exactly if they are the same or mistaken for each
other. -/
theorem written_eq_iff :
    (first.rows.getD source ∅).written = (second.rows.getD source ∅).written ↔
      SameMoves source first second ∨ TakesGlyphForEpsilon source first second ∨
        TakesGlyphForEpsilon source second first := by
  constructor
  · intro same
    rcases eq_or_lastMistaken (ascending_toList _) (ascending_toList _) same with
      equal | mistaken | mistaken
    · exact .inl (sameMoves_of_toList_eq equal)
    · exact .inr (.inl mistaken.takesGlyphForEpsilon)
    · exact .inr (.inr mistaken.takesGlyphForEpsilon)
  · rintro (same | takes | takes)
    · rw [same.getD_rows_eq]
    · exact takes.written_eq
    · exact takes.written_eq.symm

end States

section Entries

theorem Closed.getD_rows_of_not_mem {nfa : Nfa Nat} {source : Nat} (closed : nfa.Closed)
    (unknown : source ∉ nfa.states) : nfa.rows.getD source ∅ = ∅ := by
  rw [Std.ExtTreeMap.getD_eq_getD_getElem?]
  cases present : nfa.rows[source]? with
  | none => rfl
  | some row => exact absurd (closed.source_mem source row present) unknown

/-- The entries settle all but the symbols that are written alike. -/
theorem entries_eq_iff (firstClosed : first.Closed) (secondClosed : second.Closed) :
    first.states.toList.map first.entry = second.states.toList.map second.entry ↔
      first.states = second.states ∧ first.start = second.start ∧
        first.accepting = second.accepting ∧ ∀ source,
          (first.rows.getD source ∅).written = (second.rows.getD source ∅).written := by
  constructor
  · intro same
    have names : ∀ nfa : Nfa Nat, (nfa.states.toList.map nfa.entry).map (·.state) =
        nfa.states.toList := by
      intro nfa
      rw [List.map_map]
      exact List.map_id _
    have states : first.states = second.states := by
      apply Std.ExtTreeSet.toList_inj.mp
      rw [← names first, ← names second, same]
    have entries : ∀ state ∈ first.states, first.entry state = second.entry state := by
      intro state member
      rw [← states] at same
      exact List.map_inj_left.mp same state (Std.ExtTreeSet.mem_toList.mpr member)
    refine ⟨states, ?_, ?_, ?_⟩
    · have marked := congrArg Text.Entry.isStart (entries _ firstClosed.start_mem)
      simpa [entry] using marked
    · apply Std.ExtTreeSet.ext_mem
      intro state
      by_cases member : state ∈ first.states
      · have accepts : first.isAccepting state = second.isAccepting state :=
          congrArg Text.Entry.accepting (entries state member)
        rw [Std.ExtTreeSet.mem_iff_contains, Std.ExtTreeSet.mem_iff_contains]
        exact Bool.eq_iff_iff.mp accepts
      · constructor
        · intro accepts
          exact absurd (firstClosed.accepting_mem state accepts) member
        · intro accepts
          exact absurd (states ▸ secondClosed.accepting_mem state accepts) member
    · intro source
      by_cases member : source ∈ first.states
      · exact congrArg Text.Entry.moves (entries source member)
      · rw [firstClosed.getD_rows_of_not_mem member,
          secondClosed.getD_rows_of_not_mem (states ▸ member)]
  · rintro ⟨states, start, accepting, moves⟩
    have entries : first.entry = second.entry := by
      funext state
      rw [entry, entry, start, isAccepting, isAccepting, accepting, moves]
    rw [states, entries]

theorem TakesGlyphForEpsilon.sameMoves {source : Nat}
    (takes : TakesGlyphForEpsilon source first second) (closed : first.Closed)
    (unspelled : 'ε' ∉ first.alphabet) : SameMoves source first second := by
  have unread : first.targets? source (.char 'ε') = none := by
    apply Option.eq_none_iff_forall_ne_some.mpr
    intro targets move
    obtain ⟨row, present, moves⟩ := Option.bind_eq_some_iff.mp move
    exact unspelled ((closed.row_closed source row present).char_mem 'ε' targets moves)
  intro symbol
  cases symbol with
  | epsilon => rw [takes.targets?_epsilon, ← takes.targets?_char, unread]
  | char c =>
      by_cases glyph : c = 'ε'
      · subst glyph
        rw [unread, takes.other_targets?_char]
      · exact takes.targets?_eq c glyph

end Entries

/-- The texts of automata that the operations build are equal exactly if the automata have the same
states, start and accepting states and, from each state, the same moves or moves that are mistaken
for each other.  So the text is faithful as long as no move reads the character for epsilon. -/
theorem Built.listing_eq_iff_mistaken (firstBuilt : first.Built) (secondBuilt : second.Built) :
    (first.listing = second.listing ↔
      first.states = second.states ∧ first.start = second.start ∧
        first.accepting = second.accepting ∧
          ∀ source, SameMoves source first second ∨ TakesGlyphForEpsilon source first second ∨
            TakesGlyphForEpsilon source second first) ∧
      ('ε' ∉ first.alphabet → 'ε' ∉ second.alphabet → first.listing = second.listing →
        ∀ source, SameMoves source first second) := by
  have settles : first.listing = second.listing ↔
      first.states = second.states ∧ first.start = second.start ∧
        first.accepting = second.accepting ∧
          ∀ source, SameMoves source first second ∨ TakesGlyphForEpsilon source first second ∨
            TakesGlyphForEpsilon source second first := by
    rw [listing_eq_iff_entries, entries_eq_iff firstBuilt.closed secondBuilt.closed]
    simp only [written_eq_iff]
  refine ⟨settles, ?_⟩
  intro unspelled otherUnspelled same source
  obtain ⟨_, _, _, moves⟩ := settles.mp same
  rcases moves source with same | takes | takes
  · exact same
  · exact takes.sameMoves firstBuilt.closed unspelled
  · intro symbol
    exact (takes.sameMoves secondBuilt.closed otherUnspelled symbol).symm

/-- A case in which a state has another move beside the one that is mistaken, and a case without the
character for epsilon. -/
theorem Built.listing_eq_iff_mistaken_last :
    let first := ((Nfa.singleton 0).addMove 0 (.char 'ε') 1).addMove 0 (.char '\n') 0
    let second := ((Nfa.singleton 0).addMove 0 .epsilon 1).addMove 0 (.char '\n') 0
    let third := ((Nfa.singleton 0).addMove 0 (.char '\n') 0).addMove 0 .epsilon 1
    first.Built ∧ second.Built ∧ third.Built ∧ first.listing = second.listing ∧
      TakesGlyphForEpsilon 0 first second ∧ second.listing = third.listing ∧
        ∀ source, SameMoves source second third := by
  intro first second third
  have builtFirst : first.Built := .addMove 0 _ 0 (.addMove 0 _ 1 (.singleton 0))
  have builtSecond : second.Built := .addMove 0 _ 0 (.addMove 0 _ 1 (.singleton 0))
  have builtThird : third.Built := .addMove 0 _ 1 (.addMove 0 _ 0 (.singleton 0))
  have alike : first.listing = second.listing := by decide +kernel
  have again : second.listing = third.listing := by decide +kernel
  have epsilon : second.targets? 0 .epsilon = some {1} := by decide +kernel
  have noEpsilon : first.targets? 0 .epsilon = none := by decide +kernel
  obtain ⟨_, _, _, moves⟩ := (Built.listing_eq_iff_mistaken builtFirst builtSecond).1.mp alike
  have takes : TakesGlyphForEpsilon 0 first second := by
    rcases moves 0 with same | takes | takes
    · cases noEpsilon.symm.trans ((same .epsilon).trans epsilon)
    · exact takes
    · cases takes.targets?_epsilon.symm.trans epsilon
  have same := (Built.listing_eq_iff_mistaken builtSecond builtThird).2 (by decide +kernel)
    (by decide +kernel) again
  exact ⟨builtFirst, builtSecond, builtThird, alike, takes, again, same⟩

/-- A move on the character for epsilon and an epsilon move are written alike, so the text does not
settle the targets. -/
theorem Built.listing_not_faithful :
    ¬∀ first second : Nfa Nat, first.Built → second.Built → first.listing = second.listing →
      first.states = second.states ∧ first.start = second.start ∧
        first.accepting = second.accepting ∧
          ∀ source symbol, first.targets? source symbol = second.targets? source symbol := by
  intro faithful
  let first := (Nfa.singleton 0).addMove 0 (.char 'ε') 1
  let second := (Nfa.singleton 0).addMove 0 .epsilon 1
  have alike : first.listing = second.listing := by decide +kernel
  obtain ⟨_, _, _, same⟩ := faithful first second (.addMove 0 _ 1 (.singleton 0))
    (.addMove 0 _ 1 (.singleton 0)) alike
  have epsilon : second.targets? 0 .epsilon = some {1} := by decide +kernel
  have noEpsilon : first.targets? 0 .epsilon = none := by decide +kernel
  cases noEpsilon.symm.trans ((same 0 .epsilon).trans epsilon)

end PatternAutomata.Nfa
