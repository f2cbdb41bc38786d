import PatternAutomata.Text.Entry
import Mathlib.Data.List.Basic

/-!
# Entries are read back

Reading a listing gives the entries that were written, so a text is the listing of one list of
entries at most.  The digits of a number contain neither a separator nor a line feed; every other
part of a line is found by its place.
-/

namespace PatternAutomata.Text

section Numbers

theorem isDigit_of_mem_decimal {number : Nat} {c : Char} (member : c ∈ decimal number) :
    c.isDigit = true :=
  Nat.isDigit_of_mem_toDigits (by decide) (by decide) member

theorem not_mem_decimal {number : Nat} {c : Char} (noDigit : c.isDigit = false) :
    c ∉ decimal number := by
  intro member
  rw [isDigit_of_mem_decimal member] at noDigit
  cases noDigit

@[simp] theorem numbers_nil : numbers [] = [] := by
  simp [numbers]

theorem numbers_cons_of_not_isDigit {c : Char} {text : List Char} (noDigit : c.isDigit = false) :
    numbers (c :: text) = numbers text := by
  simp [numbers, List.splitOnP_cons_eq_if_modifyHead, noDigit]

theorem numbers_decimal (number : Nat) : numbers (decimal number) = [number] := by
  have whole : (decimal number).splitOnP (!·.isDigit) = [decimal number] := by
    apply List.splitOnP_eq_singleton
    intro c member
    rw [isDigit_of_mem_decimal member]
    rfl
  rw [numbers, whole]
  simp [decimal]

theorem numbers_decimal_append
    {number : Nat} {c : Char} {text : List Char} (noDigit : c.isDigit = false) :
    numbers (decimal number ++ c :: text) = number :: numbers text := by
  have parted : (decimal number ++ c :: text).splitOnP (!·.isDigit) =
      decimal number :: text.splitOnP (!·.isDigit) := by
    apply List.splitOnP_append_cons_of_forall_mem
    · intro d member
      rw [isDigit_of_mem_decimal member]
      rfl
    · simp [noDigit]
  rw [numbers, parted, numbers]
  simp [decimal]

def listed (targets : List Nat) : List Char :=
  [',', ' '].intercalate (targets.map decimal)

theorem listed_cons_cons (first second : Nat) (rest : List Nat) :
    listed (first :: second :: rest) =
      decimal first ++ ',' :: ' ' :: listed (second :: rest) := by
  simp [listed, List.intercalate]

theorem numbers_listed (targets : List Nat) : numbers (listed targets) = targets := by
  induction targets with
  | nil => simp [listed, List.intercalate]
  | cons first rest ih =>
      cases rest with
      | nil => simpa [listed, List.intercalate] using numbers_decimal first
      | cons second rest =>
          rw [listed_cons_cons, numbers_decimal_append (by decide),
            numbers_cons_of_not_isDigit (by decide), ih]

theorem feed_not_mem_listed (targets : List Nat) : '\n' ∉ listed targets := by
  induction targets with
  | nil => simp [listed, List.intercalate]
  | cons first rest ih =>
      have apart : '\n' ∉ decimal first := not_mem_decimal (by decide)
      cases rest with
      | nil => simpa [listed, List.intercalate] using apart
      | cons second rest =>
          rw [listed_cons_cons]
          simp [apart, ih]

end Numbers

section Lines

theorem cutLine_append {line rest : List Char} (noFeed : '\n' ∉ line) :
    cutLine (line ++ '\n' :: rest) = (line, rest) := by
  have inside : ∀ c ∈ line, (c != '\n') = true := by
    intro c member
    rw [bne_iff_ne]
    rintro rfl
    exact noFeed member
  rw [cutLine, List.takeWhile_append_of_pos inside, List.dropWhile_append_of_pos inside]
  simp

def stateName (accepting : Bool) (number : Nat) : List Char :=
  if accepting then '(' :: (decimal number ++ [')', ')']) else decimal number ++ [')']

theorem stateLine_append (isStart accepting : Bool) (number : Nat) (rest : List Char) :
    stateLine isStart accepting number ++ rest =
      (if isStart then '>' else ' ') :: '(' :: (stateName accepting number ++ '\n' :: rest) := by
  cases accepting <;> simp [stateLine, stateName]

theorem feed_not_mem_stateName (accepting : Bool) (number : Nat) :
    '\n' ∉ stateName accepting number := by
  have apart : '\n' ∉ decimal number := not_mem_decimal (by decide)
  cases accepting <;> simp [stateName, apart]

theorem numbers_stateName (accepting : Bool) (number : Nat) :
    numbers (stateName accepting number) = [number] := by
  have closed : numbers [')'] = [] := by
    rw [numbers_cons_of_not_isDigit (by decide), numbers_nil]
  cases accepting with
  | false => exact (numbers_decimal_append (by decide)).trans (congrArg _ numbers_nil)
  | true =>
      apply (numbers_cons_of_not_isDigit (by decide)).trans
      exact (numbers_decimal_append (by decide)).trans (congrArg _ closed)

theorem head?_stateName (accepting : Bool) (number : Nat) :
    ((stateName accepting number).head? == some '(') = accepting := by
  cases accepting with
  | true => rfl
  | false =>
      have apart : '(' ∉ decimal number := not_mem_decimal (by decide)
      rw [beq_eq_false_iff_ne]
      intro opens
      rcases List.mem_append.mp (List.mem_of_head? opens) with digit | closing
      · exact apart digit
      · cases List.mem_singleton.mp closing

/-- A line at the front of a text is read as itself, whatever follows it. -/
theorem readLine?_text_append (line : Line) (rest : List Char) :
    readLine? (line.text ++ rest) = some (line, rest) := by
  cases line with
  | moves symbol targets =>
      have noFeed : '\n' ∉ ' ' :: listed targets := by
        simpa using feed_not_mem_listed targets
      have written : (Line.moves symbol targets).text ++ rest =
          ' ' :: ' ' :: ' ' :: ' ' :: '-' :: '-' :: symbol :: '-' :: '-' :: '>' ::
            (' ' :: listed targets ++ '\n' :: rest) := by
        simp [Line.text, moveLine, listed]
      rw [written, readLine?, cutLine_append noFeed]
      simp only [numbers_cons_of_not_isDigit (c := ' ') (by decide), numbers_listed]
  | state isStart accepting number =>
      have isMark : ((if isStart then '>' else ' ') == '>') = isStart := by
        cases isStart <;> rfl
      rw [Line.text, stateLine_append, readLine?,
        cutLine_append (feed_not_mem_stateName accepting number)]
      simp only [numbers_stateName, head?_stateName, isMark]

theorem readLines?_of_readLine?
    {text rest : List Char} {line : Line} (reads : readLine? text = some (line, rest)) :
    readLines? text = (readLines? rest).map (line :: ·) := by
  have present : text.isEmpty = false := by
    rw [List.isEmpty_eq_false_iff]
    rintro rfl
    cases reads
  rw [readLines?, present, if_neg Bool.false_ne_true]
  split
  · rename_i stuck
    cases reads.symm.trans stuck
  · rename_i found
    cases reads.symm.trans found
    rfl

/-- A listing is read line by line. -/
theorem readLines?_flatMap_text (lines : List Line) :
    readLines? (lines.flatMap Line.text) = some lines := by
  induction lines with
  | nil => simp [readLines?]
  | cons line lines ih =>
      rw [List.flatMap_cons, readLines?_of_readLine? (readLine?_text_append line _), ih]
      rfl

end Lines

/-- An entry is written as the line of its state and the lines of its moves. -/
theorem Entry.text_eq (entry : Entry) :
    entry.text = stateLine entry.isStart entry.accepting entry.state ++
      entry.moves.flatMap fun move => moveLine move.1 move.2 := by
  rw [text, lines, List.flatMap_cons, List.flatMap_map]
  rfl

/-- The lines of an entry are gathered into the entry. -/
theorem gather_lines_append (entry : Entry) (rest : List Line) (entries : List Entry)
    (gathered : gather rest = ([], entries)) :
    gather (entry.lines ++ rest) = ([], entry :: entries) := by
  have moves : ∀ moves : List (Char × List Nat),
      gather (moves.map .ofMove ++ rest) = (moves, entries) := by
    intro moves
    induction moves with
    | nil => exact gathered
    | cons move moves ih => rw [List.map_cons, List.cons_append, Line.ofMove, gather, ih]
  rw [Entry.lines, List.cons_append, gather, moves]

theorem gather_flatMap_lines (entries : List Entry) :
    gather (entries.flatMap Entry.lines) = ([], entries) := by
  induction entries with
  | nil => rfl
  | cons entry entries ih => exact gather_lines_append entry _ entries ih

/-- A listing is read as the entries that it was written from. -/
theorem readEntries?_flatMap_text (entries : List Entry) :
    readEntries? (entries.flatMap Entry.text) = some entries := by
  have lines : entries.flatMap Entry.text = (entries.flatMap Entry.lines).flatMap Line.text := by
    rw [List.flatMap_assoc]
    rfl
  rw [readEntries?, lines, readLines?_flatMap_text]
  simp [gather_flatMap_lines]

/-- Listings of different entries differ. -/
theorem eq_of_flatMap_text_eq {first second : List Entry}
    (same : first.flatMap Entry.text = second.flatMap Entry.text) : first = second := by
  apply Option.some.inj
  rw [← readEntries?_flatMap_text first, same, readEntries?_flatMap_text]

end PatternAutomata.Text
