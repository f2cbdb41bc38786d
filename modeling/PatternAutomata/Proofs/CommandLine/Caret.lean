import PatternAutomata.CommandLine.Contract
import PatternAutomata.Proofs.Pattern.Positions
import PatternAutomata.Proofs.Text.Entry

/-!
# The caret of an error report

The report of an error draws a caret after as many characters as precede the error in the pattern.
So the caret stands under the error where the pattern has not been broken into lines before it, and
elsewhere too far to the right by the lines before.
-/

namespace PatternAutomata

variable {pattern earlier column after : List Char} {error : SyntaxError}

/-- The wording of an error is a single line. -/
theorem SyntaxError.feed_not_mem_message (error : SyntaxError) : '\n' ∉ error.message.toList := by
  have worded : '\n' ∉ error.fault.message.toList := by
    cases error.fault <;> simp [SyntaxFault.message]
  have placed : '\n' ∉ Nat.toDigits 10 error.position := Text.not_mem_decimal (by decide)
  rw [message]
  simp [worded, placed]

namespace CommandLine

theorem length_indentation (text : List Char) : (indentation text).length = text.length :=
  List.length_map _

/-- The beginning of a text is broken into the lines before its end and what stands before its end in
the last one. -/
theorem exists_lastLine (text : List Char) :
    ∃ earlier column, text = earlier ++ column ∧
      (earlier = [] ∨ earlier.getLast? = some '\n') ∧ '\n' ∉ column := by
  induction text using List.reverseRecOn with
  | nil => exact ⟨[], [], rfl, .inl rfl, nofun⟩
  | append_singleton text c ih =>
      by_cases feed : c = '\n'
      · subst feed
        refine ⟨text ++ ['\n'], [], (List.append_nil _).symm, .inr ?_, nofun⟩
        exact List.getLast?_concat
      · obtain ⟨earlier, column, rfl, begins, within⟩ := ih
        refine ⟨earlier, column ++ [c], List.append_assoc .., begins, ?_⟩
        rw [List.mem_append, not_or]
        exact ⟨within, by simpa [eq_comm] using feed⟩

theorem exists_liesAfter (bounded : error.position ≤ pattern.length) :
    ∃ earlier column after, LiesAfter pattern error.position earlier column after := by
  obtain ⟨earlier, column, split, begins, within⟩ := exists_lastLine (pattern.take error.position)
  refine ⟨earlier, column, pattern.drop error.position, ?_, ?_, begins, within⟩
  · rw [← split, List.take_append_drop]
  · rw [← split, List.length_take_of_le bounded]

namespace LiesAfter

theorem take_eq (lies : LiesAfter pattern error.position earlier column after) :
    pattern.take error.position = earlier ++ column := by
  rw [lies.pattern_eq, lies.position_eq, List.take_left]

theorem errorReport_eq (lies : LiesAfter pattern error.position earlier column after) :
    errorReport error pattern = caretReport error pattern (indentation (earlier ++ column)) := by
  rw [errorReport, lies.take_eq, caretReport]
  simp

/-- The caret stands in the column of the error exactly if there is no line before. -/
theorem caret_below_iff (lies : LiesAfter pattern error.position earlier column after) :
    errorReport error pattern = caretReport error pattern (indentation column) ↔ earlier = [] := by
  rw [lies.errorReport_eq]
  constructor
  · intro same
    have width := congrArg List.length same
    simp only [caretReport, List.length_append, List.length_cons, length_indentation] at width
    apply List.eq_nil_of_length_eq_zero
    omega
  · rintro rfl
    rw [List.nil_append]

end LiesAfter

/-- A pattern with an error is reported with the error on a single line, the pattern, and a caret that
stands right of the error by the width of the lines before it.  So the caret stands under the error
exactly if the error is in the first line; and what stands there is a character of the pattern,
unless the pattern ends where an operand is needed. -/
theorem errorReport_caret (failed : Pattern.parse pattern = .error error) :
    '\n' ∉ error.message.toList ∧
      (∃ earlier column after, LiesAfter pattern error.position earlier column after) ∧
        ∀ earlier column after, LiesAfter pattern error.position earlier column after →
          errorReport error pattern =
              caretReport error pattern (indentation earlier ++ indentation column) ∧
            (errorReport error pattern = caretReport error pattern (indentation column) ↔
              earlier = []) ∧
              (after = [] → error.fault.isOfEnd = true) := by
  have stands := Pattern.position_of_parse failed
  refine ⟨error.feed_not_mem_message, exists_liesAfter (by omega), ?_⟩
  intro earlier column after lies
  refine ⟨?_, lies.caret_below_iff, ?_⟩
  · rw [lies.errorReport_eq, indentation, indentation, indentation, List.map_append]
  · rintro rfl
    have atEnd : error.position = pattern.length := by
      rw [lies.position_eq, lies.pattern_eq, List.append_nil]
    rcases stands with inside | ⟨_, ofEnd⟩
    · omega
    · exact ofEnd

/-- A case with a tab in the line of the error, and one with a line before it. -/
theorem errorReport_caret_tab :
    Pattern.parse ['a', '\t', ')'] = .error ⟨.strayClosing, 2⟩ ∧
      errorReport ⟨.strayClosing, 2⟩ ['a', '\t', ')'] =
        caretReport ⟨.strayClosing, 2⟩ ['a', '\t', ')'] [' ', '\t'] ∧
      Pattern.parse ['a', '\n', 'b', '|'] = .error ⟨.emptyAlternative, 4⟩ ∧
      errorReport ⟨.emptyAlternative, 4⟩ ['a', '\n', 'b', '|'] =
        caretReport ⟨.emptyAlternative, 4⟩ ['a', '\n', 'b', '|'] [' ', ' ', ' ', ' '] := by
  have failed : Pattern.parse ['a', '\t', ')'] = .error ⟨.strayClosing, 2⟩ :=
    Pattern.parse_eq_onePass _
  have broken : Pattern.parse ['a', '\n', 'b', '|'] = .error ⟨.emptyAlternative, 4⟩ :=
    Pattern.parse_eq_onePass _
  have inFirst : LiesAfter ['a', '\t', ')'] 2 [] ['a', '\t'] [')'] := by
    constructor
    · rfl
    · rfl
    · exact .inl rfl
    · decide
  have inSecond : LiesAfter ['a', '\n', 'b', '|'] 4 ['a', '\n'] ['b', '|'] [] := by
    constructor
    · rfl
    · rfl
    · exact .inr rfl
    · decide
  obtain ⟨_, _, first⟩ := errorReport_caret failed
  obtain ⟨_, _, second⟩ := errorReport_caret broken
  exact ⟨failed, (first _ _ _ inFirst).2.1.mpr rfl, broken, (second _ _ _ inSecond).1⟩

/-- The caret does not always stand under the error: behind a line feed it is too far to the
right. -/
theorem errorReport_caret_astray :
    ¬∀ pattern error, Pattern.parse pattern = .error error →
      ∀ earlier column after, LiesAfter pattern error.position earlier column after →
        errorReport error pattern = caretReport error pattern (indentation column) := by
  intro stands
  have lies : LiesAfter ['a', '\n', ')'] 2 ['a', '\n'] [] [')'] := by
    constructor
    · rfl
    · rfl
    · exact .inr rfl
    · decide
  have failed : Pattern.parse ['a', '\n', ')'] = .error ⟨.strayClosing, 2⟩ :=
    Pattern.parse_eq_onePass _
  have below := stands _ ⟨.strayClosing, 2⟩ failed ['a', '\n'] [] [')'] lies
  cases lies.caret_below_iff.mp below

end CommandLine

end PatternAutomata
