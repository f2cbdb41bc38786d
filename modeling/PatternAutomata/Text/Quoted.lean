import PatternAutomata.Text.Printable

/-!
# Quoted text

A text between double quotes on one line.  Quotes, backslashes and the characters that are not
printable are written as escapes, and every other character stands for itself.
-/

namespace PatternAutomata.Text

/-- The character that stands behind a backslash for the given one, if a single character does. -/
def escapeMark? : Char → Option Char
  | '"' => some '"'
  | '\\' => some '\\'
  | '\t' => some 't'
  | '\n' => some 'n'
  | '\r' => some 'r'
  | '\x00' => some '0'
  | _ => none

def escape (c : Char) : List Char :=
  match escapeMark? c with
  | some mark => ['\\', mark]
  | none =>
    if isPrintable c then [c]
    else ['\\', 'u', '\x7b'] ++ Nat.toDigits 16 c.toNat ++ ['\x7d']

def quoted (text : List Char) : List Char :=
  '"' :: (text.flatMap escape ++ ['"'])

section Printable

variable {c d mark : Char}

theorem isPrintable_of_escapeMark? (marked : escapeMark? d = some mark) :
    isPrintable mark = true := by
  unfold escapeMark? at marked
  split at marked <;> cases marked <;> exact isPrintable_of_ascii (by decide) (by decide)

theorem isPrintable_of_mem_toDigits {number : Nat} (member : c ∈ Nat.toDigits 16 number) :
    isPrintable c = true := by
  have ascii : ∀ digit < 16, 32 ≤ digit.digitChar.toNat ∧ digit.digitChar.toNat < 127 := by decide
  have digits : ∀ digit < 16, isPrintable digit.digitChar = true := fun digit small =>
    isPrintable_of_ascii (ascii digit small).1 (ascii digit small).2
  induction number using Nat.strongRecOn with
  | ind number ih =>
      rcases Nat.lt_or_ge number 16 with small | large
      · rw [Nat.toDigits_of_lt_base small, List.mem_singleton] at member
        exact member ▸ digits number small
      · rw [Nat.toDigits_of_base_le (by decide) large, List.mem_append, List.mem_singleton] at member
        rcases member with earlier | rfl
        · exact ih _ (Nat.div_lt_self (by omega) (by decide)) earlier
        · exact digits _ (Nat.mod_lt _ (by decide))

theorem isPrintable_of_mem_escape (member : c ∈ escape d) : isPrintable c = true := by
  have frame : ∀ c ∈ ['\\', 'u', '\x7b', '\x7d'], isPrintable c = true := by
    simp only [List.forall_mem_cons]
    refine ⟨?_, ?_, ?_, ?_, List.forall_mem_nil _⟩ <;>
      exact isPrintable_of_ascii (by decide) (by decide)
  unfold escape at member
  split at member
  · rename_i mark marked
    rcases List.mem_cons.mp member with rfl | last
    · exact frame _ List.mem_cons_self
    · rw [List.mem_singleton.mp last]
      exact isPrintable_of_escapeMark? marked
  · split at member
    · rwa [List.mem_singleton.mp member]
    · rw [List.mem_append, List.mem_append] at member
      rcases member with (first | digit) | last
      · exact frame c (List.mem_append_left ['\x7d'] first)
      · exact isPrintable_of_mem_toDigits digit
      · exact frame c (List.mem_append_right ['\\', 'u', '\x7b'] last)

/-- Whatever the text, only printable characters stand in its quotation. -/
theorem isPrintable_of_mem_quoted {text : List Char} (member : c ∈ quoted text) :
    isPrintable c = true := by
  have quote : isPrintable '"' = true := isPrintable_of_ascii (by decide) (by decide)
  rw [quoted, List.mem_cons, List.mem_append, List.mem_singleton, List.mem_flatMap] at member
  rcases member with rfl | ⟨d, _, inside⟩ | rfl
  · exact quote
  · exact isPrintable_of_mem_escape inside
  · exact quote

end Printable

/-- A letter with its accent is shown, but an accent of its own is not. -/
example :
    quoted ['é', 'e', '\u0301', '\u3000', ' '] = "\"ée\\u\x7b301\x7d\\u\x7b3000\x7d \"".toList := by
  decide +kernel

end PatternAutomata.Text
