import PatternAutomata.Pattern.OnePass
import PatternAutomata.Pattern.Parser

/-!
# One pass does what the parser does

Wherever a function of the parser is called, the one pass reads the same phrase, or stops with the
same error, and then goes on behind the phrase.  Only where an operand is missing does the pass need
to know why it is needed; there the parser has looked ahead and makes no call.
-/

namespace PatternAutomata.Pattern

variable {stop : Nat} {groups : List OpenGroup}

namespace Cursor

variable {cursor : Cursor} {token : Token}

theorem tokens_eq_nil (ended : cursor.peek = none) : cursor.tokens = [] :=
  List.head?_eq_none_iff.mp (Option.map_eq_none_iff.mp ended)

theorem exists_of_peek (ahead : cursor.peek = some token) :
    ∃ position, cursor.tokens = ⟨position, token⟩ :: cursor.next.tokens := by
  obtain ⟨head, first, rfl⟩ := Option.map_eq_some_iff.mp ahead
  obtain ⟨rest, tokens⟩ := List.head?_eq_some_iff.mp first
  refine ⟨head.position, tokens.trans ?_⟩
  rw [next, tokens, List.tail_cons]

/-- Nothing is left of the group that is being read. -/
def EndsGroup (cursor : Cursor) : Prop :=
  cursor.peek = none ∨ cursor.peek = some .closeGroup

/-- No further factor can be read here. -/
def EndsProduct (cursor : Cursor) : Prop := cursor.EndsGroup ∨ cursor.peek = some .pipe

end Cursor

section Pass

variable {cursor : Cursor} {token : Token} {draft : Draft} {lefts : List Pattern} {last : Pattern}
  {repeatable : Bool} {need : OperandNeed}

/-- Why an operand is needed matters only if there is none. -/
theorem parseOperand_eq_start
    (ahead : cursor.peek = some token) (notClosing : token ≠ .closeGroup) :
    parseOperand stop groups draft need cursor.tokens =
      parseOperand stop groups draft .start cursor.tokens := by
  obtain ⟨position, tokens⟩ := Cursor.exists_of_peek ahead
  rw [tokens]
  cases token with
  | literal | charClass | quantifier | pipe | openGroup => rfl
  | closeGroup => exact absurd rfl notClosing

/-- If no quantifier can follow the last factor, the alternative that ends with it is as good as a
single factor. -/
theorem parseRest_eq_productWith
    (final : repeatable = true → ∀ mark, cursor.peek ≠ some (.quantifier mark)) :
    parseRest stop groups draft last repeatable cursor.tokens =
      parseRest stop groups ⟨draft.alternatives, none⟩ (draft.productWith last) false
        cursor.tokens := by
  cases ahead : cursor.peek with
  | none =>
      rw [Cursor.tokens_eq_nil ahead]
      rfl
  | some token =>
      obtain ⟨position, tokens⟩ := Cursor.exists_of_peek ahead
      rw [tokens]
      cases token with
      | literal | charClass | pipe | openGroup | closeGroup => rfl
      | quantifier mark =>
          cases repeatable with
          | false => rfl
          | true => exact absurd ahead (final rfl mark)

/-- What neither ends the alternative nor the group is read as another factor. -/
theorem parseRest_eq_parseOperand_start
    (ahead : cursor.peek = some token) (notBar : token ≠ .pipe) (notClosing : token ≠ .closeGroup) :
    parseRest stop groups ⟨lefts, none⟩ last false cursor.tokens =
      parseOperand stop groups ⟨lefts, some last⟩ .start cursor.tokens := by
  obtain ⟨position, tokens⟩ := Cursor.exists_of_peek ahead
  rw [tokens]
  cases token with
  | literal | charClass | quantifier | openGroup => rfl
  | pipe => exact absurd rfl notBar
  | closeGroup => exact absurd rfl notClosing

end Pass

section Ends

variable {before cursor : Cursor}

theorem ends_of_continueProduct
    {left reading : Reading before} (read : continueProduct stop left = .ok reading) :
    reading.after.EndsProduct := by
  generalize size : left.after.tokens.length = bound
  induction bound using Nat.strongRecOn generalizing left with
  | ind bound ih =>
      rw [continueProduct] at read
      split at read
      · cases read
        exact .inl (.inl ‹_›)
      · cases read
        exact .inr ‹_›
      · cases read
        exact .inl (.inr ‹_›)
      · obtain ⟨right, _, read⟩ := exists_of_bind_eq_ok read
        exact ih _ (size ▸ right.shorter) read rfl

theorem ends_of_parseProduct
    {reading : Reading cursor} (read : parseProduct stop cursor = .ok reading) :
    reading.after.EndsProduct := by
  rw [parseProduct] at read
  obtain ⟨first, _, read⟩ := exists_of_bind_eq_ok read
  exact ends_of_continueProduct read

theorem endsGroup_of_continueAlternatives
    {lefts : List Pattern} {last reading : Reading before}
    (ends : last.after.EndsProduct)
    (read : continueAlternatives stop lefts last = .ok reading) : reading.after.EndsGroup := by
  generalize size : last.after.tokens.length = bound
  induction bound using Nat.strongRecOn generalizing lefts last with
  | ind bound ih =>
      rw [continueAlternatives] at read
      split at read
      · split at read
        · cases read
        · cases read
        · obtain ⟨next, product, read⟩ := exists_of_bind_eq_ok read
          have shorter : next.after.tokens.length < bound :=
            size ▸ Nat.lt_of_lt_of_le next.shorter last.after.length_next_le
          have endsNext : next.after.EndsProduct :=
            ends_of_parseProduct product
          exact ih _ shorter endsNext read rfl
      · cases read
        exact ends.resolve_right ‹_›

theorem endsGroup_of_parseAlternatives
    {reading : Reading cursor} (read : parseAlternatives stop cursor = .ok reading) :
    reading.after.EndsGroup := by
  rw [parseAlternatives] at read
  obtain ⟨first, product, read⟩ := exists_of_bind_eq_ok read
  exact endsGroup_of_continueAlternatives (ends_of_parseProduct product) read

end Ends

/-- Where an operand is needed, the pass reads an atom as the parser does, and goes on behind it. -/
def AtomAlike (stop : Nat) (cursor : Cursor) : Prop :=
  ∀ groups draft, cursor.depth = groups.length →
    parseOperand stop groups draft .start cursor.tokens =
      parseAtom stop cursor >>= fun reading =>
        parseRest stop groups draft reading.tree true reading.after.tokens

def FactorAlike (stop : Nat) (cursor : Cursor) : Prop :=
  ∀ groups draft, cursor.depth = groups.length →
    parseOperand stop groups draft .start cursor.tokens =
      parseFactor stop cursor >>= fun reading =>
        parseRest stop groups ⟨draft.alternatives, none⟩ (draft.productWith reading.tree) false
          reading.after.tokens

def ProductAlike (stop : Nat) (cursor : Cursor) : Prop :=
  ∀ groups lefts, cursor.depth = groups.length →
    parseOperand stop groups ⟨lefts, none⟩ .start cursor.tokens =
      parseProduct stop cursor >>= fun reading =>
        parseRest stop groups ⟨lefts, none⟩ reading.tree false reading.after.tokens

def AlternativesAlike (stop : Nat) (cursor : Cursor) : Prop :=
  ∀ groups, cursor.depth = groups.length →
    parseOperand stop groups .blank .start cursor.tokens =
      parseAlternatives stop cursor >>= fun reading =>
        parseRest stop groups .blank reading.tree false reading.after.tokens

section Calls

variable {before cursor : Cursor}

/-- The call for a group is made on the tokens behind its parenthesis. -/
theorem atomAlike
    (inner : ∀ next : Cursor, next.tokens.length < cursor.tokens.length →
      AlternativesAlike stop next) :
    AtomAlike stop cursor := by
  intro groups draft level
  obtain ⟨tokens, depth⟩ := cursor
  obtain rfl : depth = groups.length := level
  cases tokens with
  | nil =>
      rw [parseAtom]
      rfl
  | cons head rest =>
      obtain ⟨position, token⟩ := head
      cases token with
      | literal | charClass | quantifier | pipe | closeGroup =>
          rw [parseAtom]
          rfl
      | openGroup =>
          have alike := inner ⟨rest, groups.length + 1⟩ (Nat.lt_succ_self _)
            (⟨draft, position⟩ :: groups) rfl
          rw [parseAtom, parseOperand]
          split
          · rfl
          · split
            · rename_i closes
              obtain ⟨start, tokens⟩ := Cursor.exists_of_peek closes
              dsimp only at tokens
              rw [tokens]
              rfl
            · rename_i ended
              obtain rfl : rest = [] := Cursor.tokens_eq_nil ended
              rfl
            · rename_i token notClosing ahead
              refine (parseOperand_eq_start ahead notClosing).trans (alike.trans ?_)
              cases read : parseAlternatives stop ⟨rest, groups.length + 1⟩ with
              | error error => rfl
              | ok inner =>
                  rcases endsGroup_of_parseAlternatives read with ended | closes
                  · simp only [bind, Except.bind, ended, Cursor.tokens_eq_nil ended]
                    rfl
                  · obtain ⟨closing, tokens⟩ := Cursor.exists_of_peek closes
                    simp only [bind, Except.bind, closes]
                    rw [tokens]
                    rfl

theorem factorAlike (atom : AtomAlike stop cursor) : FactorAlike stop cursor := by
  intro groups draft level
  rw [atom groups draft level, parseFactor, bind_assoc]
  congr 1
  funext reading
  split
  · rename_i mark ahead
    obtain ⟨position, tokens⟩ := Cursor.exists_of_peek ahead
    rw [tokens, pure_bind, parseRest, if_pos rfl]
    exact parseRest_eq_productWith fun impossible => absurd impossible Bool.false_ne_true
  · rename_i ahead
    rw [pure_bind]
    exact parseRest_eq_productWith fun _ mark same => ahead mark same

theorem parseRest_eq_continueProduct
    {left : Reading before}
    (factors : ∀ next : Cursor, next.tokens.length ≤ left.after.tokens.length →
      FactorAlike stop next)
    (level : left.after.depth = groups.length) (lefts : List Pattern) :
    parseRest stop groups ⟨lefts, none⟩ left.tree false left.after.tokens =
      continueProduct stop left >>= fun reading =>
        parseRest stop groups ⟨lefts, none⟩ reading.tree false reading.after.tokens := by
  generalize size : left.after.tokens.length = bound at factors
  induction bound using Nat.strongRecOn generalizing left with
  | ind bound ih =>
      rw [continueProduct]
      split
      · rw [pure_bind]
      · rw [pure_bind]
      · rw [pure_bind]
      · rename_i token notBar notClosing ahead
        rw [parseRest_eq_parseOperand_start ahead notBar notClosing,
          factors left.after (Nat.le_of_eq size) groups ⟨lefts, some left.tree⟩ level, bind_assoc]
        congr 1
        funext right
        let product := left.extend right (.concat left.tree right.tree) (Nat.le_refl _) rfl
        have shorter : product.after.tokens.length < bound := size ▸ right.shorter
        have later : ∀ next : Cursor, next.tokens.length ≤ product.after.tokens.length →
            FactorAlike stop next :=
          fun next within => factors next (Nat.le_trans within (Nat.le_of_lt shorter))
        exact ih _ shorter (right.depth_eq.trans level) rfl later

theorem productAlike
    (factors : ∀ next : Cursor, next.tokens.length ≤ cursor.tokens.length →
      FactorAlike stop next) :
    ProductAlike stop cursor := by
  intro groups lefts level
  rw [factors cursor (Nat.le_refl _) groups ⟨lefts, none⟩ level, parseProduct, bind_assoc]
  congr 1
  funext first
  have later : ∀ next : Cursor, next.tokens.length ≤ first.after.tokens.length →
      FactorAlike stop next :=
    fun next within => factors next (Nat.le_trans within (Nat.le_of_lt first.shorter))
  exact parseRest_eq_continueProduct later (first.depth_eq.trans level) lefts

/-- At the end of a group, the alternatives that are complete are put together with the last. -/
theorem parseRest_eq_finish
    {lefts : List Pattern} {last : Pattern} (ends : cursor.EndsGroup) :
    parseRest stop groups ⟨lefts, none⟩ last false cursor.tokens =
      parseRest stop groups .blank (Draft.finish ⟨lefts, none⟩ last) false cursor.tokens := by
  rcases ends with ended | closes
  · rw [Cursor.tokens_eq_nil ended]
    rfl
  · obtain ⟨position, tokens⟩ := Cursor.exists_of_peek closes
    rw [tokens]
    rfl

theorem parseRest_eq_continueAlternatives
    {lefts : List Pattern} {last : Reading before}
    (products : ∀ next : Cursor, next.tokens.length ≤ last.after.tokens.length →
      ProductAlike stop next)
    (ends : last.after.EndsProduct)
    (level : last.after.depth = groups.length) :
    parseRest stop groups ⟨lefts, none⟩ last.tree false last.after.tokens =
      continueAlternatives stop lefts last >>= fun reading =>
        parseRest stop groups .blank reading.tree false reading.after.tokens := by
  generalize size : last.after.tokens.length = bound at products
  induction bound using Nat.strongRecOn generalizing last lefts with
  | ind bound ih =>
      rw [continueAlternatives]
      split
      · rename_i bar
        obtain ⟨position, tokens⟩ := Cursor.exists_of_peek bar
        rw [tokens]
        change parseOperand stop groups ⟨last.tree :: lefts, none⟩ .bar last.after.next.tokens = _
        split
        · rename_i ended
          rw [Cursor.positionOr, Cursor.tokens_eq_nil ended]
          rfl
        · rename_i closes
          obtain ⟨closing, same⟩ := Cursor.exists_of_peek closes
          rw [Cursor.positionOr, same]
          rfl
        · rename_i token notClosing ahead
          have behind : last.after.next.tokens.length ≤ bound := size ▸ last.after.length_next_le
          rw [parseOperand_eq_start ahead notClosing,
            products last.after.next behind groups (last.tree :: lefts) level, bind_assoc]
          cases read : parseProduct stop last.after.next with
          | error error => rfl
          | ok next =>
              let longer := last.extend next next.tree last.after.length_next_le rfl
              have shorter : longer.after.tokens.length < bound :=
                Nat.lt_of_lt_of_le next.shorter behind
              have later : ∀ cursor : Cursor,
                  cursor.tokens.length ≤ longer.after.tokens.length → ProductAlike stop cursor :=
                fun cursor within => products cursor (Nat.le_trans within (Nat.le_of_lt shorter))
              have endsNext : next.after.EndsProduct :=
                ends_of_parseProduct read
              exact ih _ shorter endsNext (next.depth_eq.trans level) rfl later
      · rw [pure_bind]
        exact parseRest_eq_finish (ends.resolve_right ‹_›)

theorem alternativesAlike_of_products
    (products : ∀ next : Cursor, next.tokens.length ≤ cursor.tokens.length →
      ProductAlike stop next) :
    AlternativesAlike stop cursor := by
  intro groups level
  rw [parseAlternatives, bind_assoc]
  refine (products cursor (Nat.le_refl _) groups [] level).trans ?_
  cases read : parseProduct stop cursor with
  | error error => rfl
  | ok first =>
      have later : ∀ next : Cursor, next.tokens.length ≤ first.after.tokens.length →
          ProductAlike stop next :=
        fun next within => products next (Nat.le_trans within (Nat.le_of_lt first.shorter))
      exact parseRest_eq_continueAlternatives later (ends_of_parseProduct read)
        (first.depth_eq.trans level)

/-- A group is shorter than the tokens around it, so all calls inside one may be taken to do as the
pass does. -/
theorem alternativesAlike (stop : Nat) (cursor : Cursor) : AlternativesAlike stop cursor := by
  generalize size : cursor.tokens.length = bound
  induction bound using Nat.strongRecOn generalizing cursor with
  | ind bound ih =>
      have factors : ∀ next : Cursor, next.tokens.length ≤ cursor.tokens.length →
          FactorAlike stop next := by
        intro next within
        apply factorAlike
        apply atomAlike
        intro inner shorter
        exact ih _ (size ▸ Nat.lt_of_lt_of_le shorter within) inner rfl
      apply alternativesAlike_of_products
      intro next within
      apply productAlike
      intro later behind
      exact factors later (Nat.le_trans behind within)

end Calls

/-- The parser and the one pass agree on every sequence of tokens. -/
theorem ofTokens_eq_onePass (sequence : TokenSequence) : ofTokens sequence = onePass sequence := by
  have alike := alternativesAlike sequence.stop ⟨sequence.tokens, 0⟩ [] rfl
  refine Eq.trans ?_ alike.symm
  rw [ofTokens]
  cases read : parseAlternatives sequence.stop ⟨sequence.tokens, 0⟩ with
  | error error => rfl
  | ok reading =>
      rcases endsGroup_of_parseAlternatives read with ended | closes
      · simp only [bind, Except.bind, Cursor.tokens_eq_nil ended]
        rfl
      · obtain ⟨position, tokens⟩ := Cursor.exists_of_peek closes
        simp only [bind, Except.bind]
        rw [tokens]
        rfl

theorem parse_eq_onePass (text : List Char) : parse text = TokenSequence.read text >>= onePass := by
  rw [parse, funext ofTokens_eq_onePass]

end PatternAutomata.Pattern
