import PatternAutomata.Proofs.Text.Lines

/-!
# Bytes that are no text

Bytes encode characters exactly if each of their lines does: no character is encoded across a line
feed.  So bytes that encode none have a first line that is to blame, and whoever reads them line by
line gets as far as this one.
-/

namespace PatternAutomata.Text

variable {bytes rest before line after : List UInt8} {text other : List Char}

theorem decode?_nil : decode? [] = some [] := decode?_eq_some_iff.mpr rfl

theorem decode?_append
    (decoded : decode? bytes = some text) (restDecoded : decode? rest = some other) :
    decode? (bytes ++ rest) = some (text ++ other) := by
  apply decode?_eq_some_iff.mpr
  rw [decode?_eq_some_iff.mp decoded, decode?_eq_some_iff.mp restDecoded, encode, encode, encode,
    List.flatMap_append]

/-- A line feed can stand between two decoded parts. -/
theorem decode?_append_feed
    (decoded : decode? bytes = some text) (restDecoded : decode? rest = some other) :
    decode? (bytes ++ 10 :: rest) = some (text ++ '\n' :: other) := by
  have feed : decode? [10] = some ['\n'] := decode?_eq_some_iff.mpr rfl
  exact decode?_append decoded (decode?_append feed restDecoded)

/-- What follows a line feed is cut into lines on its own. -/
theorem linesFrom_append_feed (current bytes rest : List UInt8) :
    linesFrom current (bytes ++ 10 :: rest) = linesFrom current (bytes ++ [10]) ++ lines rest := by
  induction bytes generalizing current with
  | nil => rfl
  | cons byte bytes ih =>
      rw [List.cons_append, List.cons_append, linesFrom, linesFrom]
      split
      · rw [ih, List.cons_append]
      · exact ih (byte :: current)

theorem lines_append (whole : before ≠ [] → before.getLast? = some 10) :
    lines (before ++ rest) = lines before ++ lines rest := by
  by_cases empty : before = []
  · subst empty
    rfl
  · obtain ⟨bytes, rfl⟩ := List.getLast?_eq_some_iff.mp (whole empty)
    rw [List.append_assoc, List.singleton_append]
    exact linesFrom_append_feed [] bytes rest

/-- A carriage return before the line feed makes no difference to whether a line is decoded. -/
theorem decode?_of_decode?_dropReturn
    (decoded : decode? (dropReturn bytes.reverse).reverse = some text) :
    ∃ whole, decode? bytes = some whole := by
  cases ended : bytes.reverse with
  | nil =>
      obtain rfl := List.reverse_eq_nil_iff.mp ended
      exact ⟨[], decode?_nil⟩
  | cons last others =>
      have split : bytes = others.reverse ++ [last] := by
        rw [← List.reverse_cons, ← ended, List.reverse_reverse]
      rw [ended] at decoded
      by_cases carriage : last = 13
      · subst carriage
        have lastDecoded : decode? [13] = some ['\r'] := decode?_eq_some_iff.mpr rfl
        rw [split]
        exact ⟨text ++ ['\r'], decode?_append decoded lastDecoded⟩
      · have different : (last :: others).head? ≠ some 13 := fun same =>
          carriage (Option.some.inj same)
        rw [dropReturn_of_ne different, List.reverse_cons] at decoded
        exact ⟨text, split ▸ decoded⟩

namespace BreaksOff

/-- The first line is the one to blame. -/
theorem first
    (noFeed : 10 ∉ line) (unreadable : decode? line = none)
    (ended : after ≠ [] → after.head? = some 10) :
    BreaksOff [] line after where
  whole := absurd rfl
  readable := ⟨[], decode?_nil⟩
  no_feed := noFeed
  unreadable := unreadable
  ended := ended

/-- A decoded line before the others changes nothing about which line is to blame. -/
theorem later
    (breaks : BreaksOff before line after) (decoded : decode? bytes = some text) :
    BreaksOff (bytes ++ 10 :: before) line after where
  whole := by
    intro _
    cases before with
    | nil => exact List.getLast?_concat
    | cons byte before =>
        have last := breaks.whole (List.cons_ne_nil byte before)
        rw [List.getLast?_append, List.getLast?_cons_cons, last]
        rfl
  readable := by
    obtain ⟨earlier, earlierDecoded⟩ := breaks.readable
    exact ⟨_, decode?_append_feed decoded earlierDecoded⟩
  no_feed := breaks.no_feed
  unreadable := breaks.unreadable
  ended := breaks.ended

theorem decode?_ne (breaks : BreaksOff before line after) : decode? line ≠ some text := by
  rw [breaks.unreadable]
  exact (Option.some_ne_none text).symm

/-- The first of the remaining lines is the one that is not decoded. -/
theorem lines_eq (breaks : BreaksOff before line after) :
    ∃ content others, lines (line ++ after) = content :: others ∧ decode? content = none := by
  have present : line ≠ [] := by
    rintro rfl
    exact breaks.decode?_ne decode?_nil
  rw [lines, linesFrom_append breaks.no_feed, List.append_nil]
  cases after with
  | nil =>
      refine ⟨line, [], ?_, breaks.unreadable⟩
      rw [linesFrom, List.isEmpty_reverse, if_neg (by simpa using present), List.reverse_reverse]
  | cons byte rest =>
      obtain rfl := Option.some.inj (breaks.ended (List.cons_ne_nil byte rest))
      refine ⟨(dropReturn line.reverse).reverse, lines rest, ?_, ?_⟩
      · rw [linesFrom, if_pos rfl]
        rfl
      · apply Option.eq_none_iff_forall_ne_some.mpr
        intro text decoded
        obtain ⟨whole, lineDecoded⟩ := decode?_of_decode?_dropReturn decoded
        exact breaks.decode?_ne lineDecoded

end BreaksOff

/-- Bytes that encode no characters have a first line that encodes none. -/
theorem exists_breaksOff {input : List UInt8} (unreadable : decode? input = none) :
    ∃ before line after, input = before ++ line ++ after ∧ BreaksOff before line after := by
  -- by induction on the length: what follows a decoded first line is shorter
  induction size : input.length using Nat.strongRecOn generalizing input with
  | ind length ih =>
      by_cases feeds : 10 ∈ input
      case neg =>
        exact ⟨[], input, [], (List.append_nil input).symm, .first feeds unreadable (absurd rfl)⟩
      case pos =>
        obtain ⟨line, rest, rfl, noFeed⟩ := List.eq_append_cons_of_mem feeds
        cases decoded : decode? line with
        | none => exact ⟨[], line, 10 :: rest, rfl, .first noFeed decoded fun _ => rfl⟩
        | some text =>
            have restUnreadable : decode? rest = none := by
              apply Option.eq_none_iff_forall_ne_some.mpr
              intro other restDecoded
              rw [decode?_append_feed decoded restDecoded] at unreadable
              cases unreadable
            have shorter : rest.length < length := by
              rw [← size, List.length_append, List.length_cons]
              omega
            obtain ⟨before, bad, after, rfl, breaks⟩ := ih rest.length shorter restUnreadable rfl
            exact ⟨line ++ 10 :: before, bad, after, by simp, breaks.later decoded⟩

end PatternAutomata.Text
