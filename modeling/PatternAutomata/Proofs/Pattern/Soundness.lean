import PatternAutomata.Pattern.Grammar
import PatternAutomata.Proofs.Pattern.OnePass

/-!
# The parser is sound

A tree that the parser returns is derived by the tokens that it has read.  The one pass, which does
as the parser does, has an invariant that says what the tokens read so far are for its drafts: the
tokens of a draft are its complete alternatives, each with its bar, and then its factors; the tokens
of a group follow its parenthesis.
-/

namespace PatternAutomata.Pattern

/-- The tokens are the alternatives, each with the bar after it; the latest is listed first. -/
inductive SpellsAlternatives (room : Nat) : List Pattern → List Token → Prop where
  | nil : SpellsAlternatives room [] []
  | cons {alternatives : List Pattern} {before tokens : List Token} {tree : Pattern} :
      SpellsAlternatives room alternatives before →
      Derives room .product tokens tree →
      SpellsAlternatives room (tree :: alternatives) (before ++ (tokens ++ [.pipe]))

/-- The tokens are the product, or there are none of either. -/
inductive SpellsFront (room : Nat) : Option Pattern → List Token → Prop where
  | none : SpellsFront room none []
  | some {tokens : List Token} {tree : Pattern} :
      Derives room .product tokens tree →
      SpellsFront room (some tree) tokens

/-- The tokens are what the draft has been made of. -/
inductive SpellsDraft (room : Nat) : Draft → List Token → Prop where
  | intro {alternatives : List Pattern} {front : Option Pattern} {before product : List Token} :
      SpellsAlternatives room alternatives before →
      SpellsFront room front product →
      SpellsDraft room ⟨alternatives, front⟩ (before ++ product)

/-- The tokens leave the groups open and have led to the draft of the innermost one. -/
inductive Pending : List OpenGroup → Draft → List Token → Prop where
  | outermost {draft : Draft} {tokens : List Token} :
      SpellsDraft maxGroupDepth draft tokens →
      Pending [] draft tokens
  | inside {groups : List OpenGroup} {outer draft : Draft} {before tokens : List Token}
      (position : Nat) :
      Pending groups outer before →
      groups.length < maxGroupDepth →
      SpellsDraft (maxGroupDepth - (groups.length + 1)) draft tokens →
      Pending (⟨outer, position⟩ :: groups) draft (before ++ .openGroup :: tokens)

theorem SpellsAlternatives.union
    {room : Nat} {alternatives : List Pattern} {before tokens : List Token} {tree : Pattern}
    (spells : SpellsAlternatives room alternatives before)
    (derives : Derives room .alternatives tokens tree) :
    Derives room .alternatives (before ++ tokens)
      (alternatives.foldl (fun right left => .union left right) tree) := by
  induction spells generalizing tokens tree with
  | nil => exact derives
  | cons _ left ih => simpa using ih (.union left derives)

theorem SpellsFront.productWith
    {room : Nat} {draft : Draft} {product factor : List Token} {last : Pattern}
    (spells : SpellsFront room draft.front product)
    (derives : Derives room .factor factor last) :
    Derives room .product (product ++ factor) (draft.productWith last) := by
  obtain ⟨alternatives, front⟩ := draft
  cases spells with
  | none => exact .factor derives
  | some product => exact .concat product derives

namespace SpellsDraft

variable {room : Nat} {draft : Draft} {tokens factor : List Token} {last : Pattern}

theorem blank : SpellsDraft room .blank [] :=
  .intro .nil .none

theorem settle
    (spells : SpellsDraft room draft tokens) (derives : Derives room .factor factor last) :
    SpellsDraft room (draft.settle last) (tokens ++ factor) := by
  cases spells with
  | intro alternatives front =>
      rw [List.append_assoc]
      exact .intro alternatives (.some (SpellsFront.productWith front derives))

theorem close
    (spells : SpellsDraft room draft tokens) (derives : Derives room .factor factor last) :
    SpellsDraft room (draft.close last) (tokens ++ (factor ++ [.pipe])) := by
  cases spells with
  | @intro _ _ before product alternatives front =>
      have regrouped : before ++ product ++ (factor ++ [.pipe]) =
          before ++ (product ++ factor ++ [.pipe]) ++ [] := by
        simp only [List.append_assoc, List.append_nil]
      rw [regrouped]
      exact .intro (.cons alternatives (SpellsFront.productWith front derives)) .none

theorem finish
    (spells : SpellsDraft room draft tokens) (derives : Derives room .factor factor last) :
    Derives room .alternatives (tokens ++ factor) (draft.finish last) := by
  cases spells with
  | intro alternatives front =>
      rw [List.append_assoc]
      exact alternatives.union (.alternative (SpellsFront.productWith front derives))

end SpellsDraft

namespace Pending

variable {groups : List OpenGroup} {draft : Draft} {tokens factor : List Token} {last : Pattern}

/-- Only the draft of the innermost group changes when its tokens go on. -/
theorem goOn
    {next : Draft} {more : List Token} (pending : Pending groups draft tokens)
    (grows : ∀ own, SpellsDraft (maxGroupDepth - groups.length) draft own →
      SpellsDraft (maxGroupDepth - groups.length) next (own ++ more)) :
    Pending groups next (tokens ++ more) := by
  cases pending with
  | outermost spells => exact .outermost (grows _ spells)
  | inside position outer below spells =>
      rw [List.append_assoc, List.cons_append]
      exact .inside position outer below (grows _ spells)

theorem settle
    (pending : Pending groups draft tokens)
    (derives : Derives (maxGroupDepth - groups.length) .factor factor last) :
    Pending groups (draft.settle last) (tokens ++ factor) :=
  pending.goOn fun _ spells => spells.settle derives

theorem close
    (pending : Pending groups draft tokens)
    (derives : Derives (maxGroupDepth - groups.length) .factor factor last) :
    Pending groups (draft.close last) (tokens ++ (factor ++ [.pipe])) :=
  pending.goOn fun _ spells => spells.close derives

theorem length_le (pending : Pending groups draft tokens) : groups.length ≤ maxGroupDepth := by
  cases pending with
  | outermost => exact Nat.zero_le _
  | inside _ _ below => exact below

theorem openGroup
    (pending : Pending groups draft tokens) (below : groups.length < maxGroupDepth)
    (position : Nat) :
    Pending (⟨draft, position⟩ :: groups) .blank (tokens ++ [.openGroup]) :=
  .inside position pending below .blank

theorem closeGroup
    {outer : Draft} {position : Nat}
    (pending : Pending (⟨outer, position⟩ :: groups) draft tokens)
    (derives : Derives (maxGroupDepth - (groups.length + 1)) .factor factor last) :
    ∃ before group, tokens ++ factor ++ [.closeGroup] = before ++ group ∧
      Pending groups outer before ∧
      Derives (maxGroupDepth - groups.length) .atom group (draft.finish last) := by
  cases pending with
  | @inside _ _ _ before own _ around below spells =>
      have room : maxGroupDepth - groups.length = maxGroupDepth - (groups.length + 1) + 1 := by
        omega
      refine ⟨before, .openGroup :: (own ++ factor ++ [.closeGroup]), ?_, around, ?_⟩
      · simp
      · rw [room]
        exact .group (spells.finish derives)

end Pending

/-- The kind of phrase that the last factor is: an atom as long as a quantifier may follow it. -/
def lastPhrase (repeatable : Bool) : Phrase :=
  if repeatable then .atom else .factor

theorem derives_factor_of_last
    {room : Nat} {repeatable : Bool} {tokens : List Token} {tree : Pattern}
    (derives : Derives room (lastPhrase repeatable) tokens tree) :
    Derives room .factor tokens tree := by
  cases repeatable with
  | false => exact derives
  | true => exact .once derives

/-- What a run returns is derived by the tokens before it, the last factor, and the tokens of the
run: for a run that starts where an operand is needed, and for one after a factor. -/
theorem run_sound (tokens : List PlacedToken) (stop : Nat) (tree : Pattern) :
    (∀ groups draft need before,
      Pending groups draft before →
      parseOperand stop groups draft need tokens = .ok tree →
      Derives maxGroupDepth .alternatives (before ++ tokens.map (·.token)) tree) ∧
    (∀ groups draft last repeatable before factor,
      Pending groups draft before →
      Derives (maxGroupDepth - groups.length) (lastPhrase repeatable) factor last →
      parseRest stop groups draft last repeatable tokens = .ok tree →
      Derives maxGroupDepth .alternatives (before ++ factor ++ tokens.map (·.token)) tree) := by
  induction tokens with
  | nil =>
      constructor
      · intro groups draft need before pending parsed
        cases parsed
      · intro groups draft last repeatable before factor pending derives parsed
        cases groups with
        | cons => cases parsed
        | nil =>
            cases parsed
            cases pending with
            | outermost spells =>
                simpa using spells.finish (derives_factor_of_last derives)
  | cons head rest ih =>
      obtain ⟨position, token⟩ := head
      obtain ⟨ihOperand, ihRest⟩ := ih
      have operand : ∀ groups draft need before,
          Pending groups draft before →
          parseOperand stop groups draft need (⟨position, token⟩ :: rest) = .ok tree →
          Derives maxGroupDepth .alternatives (before ++ token :: rest.map (·.token)) tree := by
        intro groups draft need before pending parsed
        cases token with
        | literal c =>
            simpa using ihRest groups draft _ true before [.literal c] pending (.literal c) parsed
        | charClass cls =>
            simpa using
              ihRest groups draft _ true before [.charClass cls] pending (.charClass cls) parsed
        | quantifier mark => cases parsed
        | pipe => cases parsed
        | closeGroup => cases parsed
        | openGroup =>
            rw [parseOperand] at parsed
            split at parsed
            · cases parsed
            · have below : groups.length < maxGroupDepth :=
                Nat.lt_of_le_of_ne pending.length_le ‹_›
              simpa using ihOperand _ _ _ _ (pending.openGroup below position) parsed
      refine ⟨operand, ?_⟩
      intro groups draft last repeatable before factor pending derives parsed
      have asFactor := derives_factor_of_last derives
      -- A token that begins an operand makes the last factor final and is read as such.
      have settled := operand groups _ .start _ (pending.settle asFactor)
      cases token with
      | literal c => exact settled parsed
      | charClass cls => exact settled parsed
      | openGroup => exact settled parsed
      | quantifier mark =>
          cases repeatable with
          | false => cases parsed
          | true =>
              have marked : Derives (maxGroupDepth - groups.length) (lastPhrase false)
                  (factor ++ [.quantifier mark]) (.quantified mark last) := .quantified mark derives
              simpa using ihRest groups draft _ false before _ pending marked parsed
      | pipe => simpa using ihOperand groups _ _ _ (pending.close asFactor) parsed
      | closeGroup =>
          cases groups with
          | nil => cases parsed
          | cons group outer =>
              obtain ⟨around, own, split, pendingOuter, atom⟩ := pending.closeGroup asFactor
              have whole := ihRest outer _ _ true around own pendingOuter atom parsed
              rw [← split] at whole
              simpa using whole

/-- The tokens that a pattern is read from derive the tree that is read. -/
theorem derives_of_ofTokens
    {sequence : TokenSequence} {tree : Pattern} (parsed : ofTokens sequence = .ok tree) :
    Derives maxGroupDepth .alternatives (sequence.tokens.map (·.token)) tree := by
  rw [ofTokens_eq_onePass] at parsed
  have sound := (run_sound sequence.tokens sequence.stop tree).1
  exact sound [] .blank .start [] (.outermost .blank) parsed

end PatternAutomata.Pattern
