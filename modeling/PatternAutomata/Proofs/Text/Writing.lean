import PatternAutomata.Text.Encoding

/-!
# Writing lines and reading them back

A text has exactly those lines of which it consists: lines that are written with endings that fit
them are read back one for one, and every text arises so from its lines.
-/

namespace PatternAutomata.Text

variable {ending : LineEnding} {c : Char} {line text : List Char} {lines : List (List Char)}

theorem textLines_cons
    (notFeed : c ≠ '\n') (notEnding : c = '\r' → text.head? ≠ some '\n') :
    textLines (c :: text) = beginFirst c (textLines text) := by
  rw [textLines]
  · exact notFeed
  · intro rest carriage begins
    apply notEnding carriage
    rw [begins]
    rfl

namespace LineEnding

theorem Fits.nil : ending.Fits [] where
  no_feed := List.not_mem_nil
  no_return _ := nofun

theorem Fits.tail (fits : ending.Fits (c :: line)) : ending.Fits line where
  no_feed later := fits.no_feed (List.mem_cons_of_mem c later)
  no_return feeds last := by
    apply fits.no_return feeds
    rw [List.getLast?_cons, last]
    rfl

/-- A carriage return in a line that fits its ending does not meet a line feed. -/
theorem Fits.head?_ne (fits : ending.Fits (c :: line)) (carriage : c = '\r') :
    (line ++ ending.text ++ text).head? ≠ some '\n' := by
  cases line with
  | nil =>
      cases ending with
      | feed => exact absurd (congrArg some carriage) (fits.no_return rfl)
      | returnFeed => exact nofun
  | cons d line =>
      intro begins
      apply fits.no_feed
      rw [← Option.some.inj begins]
      exact List.mem_cons_of_mem c List.mem_cons_self

/-- A line with an ending that fits it is read back, whatever follows. -/
theorem Fits.textLines_append (fits : ending.Fits line) :
    textLines (line ++ ending.text ++ text) = line :: textLines text := by
  induction line with
  | nil =>
      cases ending with
      | feed => rw [List.nil_append, LineEnding.text, List.singleton_append, textLines]
      | returnFeed =>
          rw [List.nil_append, LineEnding.text, List.cons_append, List.singleton_append, textLines]
  | cons c line ih =>
      have notFeed : c ≠ '\n' := fun same => fits.no_feed (same ▸ List.mem_cons_self)
      rw [List.cons_append, List.cons_append, textLines_cons notFeed fits.head?_ne, ih fits.tail]
      rfl

end LineEnding

theorem textLines_of_no_feed (present : line ≠ []) (noFeed : '\n' ∉ line) :
    textLines line = [line] := by
  induction line with
  | nil => exact absurd rfl present
  | cons c line ih =>
      have notFeed : c ≠ '\n' := fun same => noFeed (same ▸ List.mem_cons_self)
      have noFeedLater : '\n' ∉ line := fun later => noFeed (List.mem_cons_of_mem c later)
      have notEnding : c = '\r' → line.head? ≠ some '\n' :=
        fun _ begins => noFeedLater (List.mem_of_head? begins)
      rw [textLines_cons notFeed notEnding]
      cases line with
      | nil => rfl
      | cons d line =>
          rw [ih (List.cons_ne_nil d line) noFeedLater]
          rfl

namespace ConsistsOf

theorem textLines_eq (consists : ConsistsOf lines text) : textLines text = lines := by
  induction consists with
  | nil => rfl
  | unfinished present noFeed => exact textLines_of_no_feed present noFeed
  | cons fits _ ih => rw [fits.textLines_append, ih]

/-- A character that ends no line belongs to the first. -/
theorem beginFirst
    (consists : ConsistsOf lines text) (notFeed : c ≠ '\n')
    (notEnding : c = '\r' → text.head? ≠ some '\n') :
    ConsistsOf (beginFirst c lines) (c :: text) := by
  have without : ∀ {line : List Char}, '\n' ∉ line → '\n' ∉ c :: line := by
    intro line noFeed member
    rcases List.mem_cons.mp member with same | later
    · exact notFeed same.symm
    · exact noFeed later
  cases consists with
  | nil => exact .unfinished (List.cons_ne_nil c []) (without List.not_mem_nil)
  | unfinished present noFeed => exact .unfinished (List.cons_ne_nil c _) (without noFeed)
  | @cons ending line rest lines fits consists =>
      have fitsLonger : ending.Fits (c :: line) := by
        constructor
        · exact without fits.no_feed
        · intro feeds last
          cases line with
          | nil =>
              subst feeds
              exact notEnding (Option.some.inj last) rfl
          | cons d line =>
              rw [List.getLast?_cons_cons] at last
              exact fits.no_return feeds last
      exact .cons fitsLonger consists

end ConsistsOf

theorem consistsOf_textLines (text : List Char) : ConsistsOf (textLines text) text := by
  induction text using textLines.induct with
  | case1 => exact .nil
  | case2 rest ih =>
      rw [textLines]
      have fits : LineEnding.feed.Fits [] := .nil
      exact .cons fits ih
  | case3 rest ih =>
      rw [textLines]
      have fits : LineEnding.returnFeed.Fits [] := .nil
      exact .cons fits ih
  | case4 c rest notFeed notEnding ih =>
      have apart : c = '\r' → rest.head? ≠ some '\n' := by
        intro carriage begins
        obtain ⟨after, rfl⟩ := List.head?_eq_some_iff.mp begins
        exact notEnding after carriage rfl
      rw [textLines_cons notFeed apart]
      exact ih.beginFirst notFeed apart

/-- The lines of a text are those of which it consists. -/
theorem textLines_eq_iff : textLines text = lines ↔ ConsistsOf lines text := by
  constructor
  · intro same
    subst same
    exact consistsOf_textLines text
  · intro consists
    exact consists.textLines_eq

/-- Lines with the same ending can be put before any text. -/
theorem ConsistsOf.writeLines_append
    {before : List (List Char)} (fits : ∀ line ∈ before, ending.Fits line)
    (consists : ConsistsOf lines text) :
    ConsistsOf (before ++ lines) (writeLines ending before ++ text) := by
  induction before with
  | nil => exact consists
  | cons line before ih =>
      obtain ⟨first, later⟩ := List.forall_mem_cons.mp fits
      rw [writeLines, List.flatMap_cons, List.append_assoc]
      exact .cons first (ih later)

theorem consistsOf_writeLines (fits : ∀ line ∈ lines, ending.Fits line) :
    ConsistsOf lines (writeLines ending lines) := by
  have consists := ConsistsOf.nil.writeLines_append fits
  rwa [List.append_nil, List.append_nil] at consists

/-- The ending of the last line can be left out unless the line is empty. -/
theorem consistsOf_of_writeLines
    (fits : ∀ line ∈ lines, ending.Fits line) (present : lines ≠ [])
    (last : lines.getLast? ≠ some []) (written : text ++ ending.text = writeLines ending lines) :
    ConsistsOf lines text := by
  obtain ⟨before, line, rfl⟩ : ∃ before line, lines = before ++ [line] :=
    ⟨lines.dropLast, lines.getLast present, (List.dropLast_concat_getLast present).symm⟩
  rw [List.getLast?_concat] at last
  have whole : text ++ ending.text = writeLines ending before ++ line ++ ending.text := by
    rw [written, writeLines, List.flatMap_append, List.flatMap_singleton, List.append_assoc,
      writeLines]
  rw [List.append_cancel_right whole]
  apply ConsistsOf.writeLines_append
  · intro other member
    exact fits other (List.mem_append_left _ member)
  · apply ConsistsOf.unfinished
    · exact fun empty => last (congrArg some empty)
    · exact (fits line (List.mem_append_right _ List.mem_cons_self)).no_feed

end PatternAutomata.Text
