import PatternAutomata.Text.Encoding

/-!
# Lines of bytes and lines of characters

Only the line feed is encoded with the byte of a line feed, and only the carriage return with the
byte of a carriage return.  So cutting the encoding of a text into lines and decoding these gives
the lines of the text.
-/

namespace PatternAutomata.Text

theorem encode_nil : encode [] = [] := rfl

theorem encode_cons {c : Char} {text : List Char} :
    encode (c :: text) = String.utf8EncodeChar c ++ encode text := rfl

theorem toByteArray_encode (text : List Char) :
    ByteArray.mk (encode text).toArray = text.utf8Encode :=
  ByteArray.ext List.data_toByteArray.symm

/-- Exactly the encodings of characters are decoded, as these characters. -/
theorem decode?_eq_some_iff {bytes : List UInt8} {text : List Char} :
    decode? bytes = some text ↔ bytes = encode text := by
  rw [decode?, Option.map_eq_some_iff]
  constructor
  · intro decoded
    obtain ⟨string, read, rfl⟩ := decoded
    rw [String.fromUTF8?] at read
    split at read
    · cases read
      have same : ByteArray.mk (encode (String.fromUTF8 ⟨bytes.toArray⟩ ‹_›).toList).toArray =
          ⟨bytes.toArray⟩ := by
        rw [toByteArray_encode, String.utf8Encode_toList]
        rfl
      simpa using (congrArg ByteArray.data same).symm
    · cases read
  · intro encoded
    subst encoded
    refine ⟨String.ofList text, ?_, String.toList_ofList⟩
    rw [toByteArray_encode, String.fromUTF8?, dif_pos ByteArray.isValidUTF8_utf8Encode]
    rfl

theorem utf8EncodeChar_of_ascii {c : Char} (ascii : c.toNat < 128) :
    String.utf8EncodeChar c = [UInt8.ofNat c.toNat] :=
  if_pos (Nat.le_of_lt_succ ascii)

theorem le_of_mem_utf8EncodeChar
    {c : Char} {byte : UInt8} (notAscii : 128 ≤ c.toNat) (member : byte ∈ String.utf8EncodeChar c) :
    128 ≤ byte.toNat := by
  have large : ¬c.val.toNat ≤ 127 := Nat.not_le.mpr notAscii
  have every : ∀ byte ∈ String.utf8EncodeChar c, 128 ≤ byte.toNat := by
    unfold String.utf8EncodeChar
    rw [if_neg large]
    split
    · simp only [List.forall_mem_cons, UInt8.toNat_ofNat']
      refine ⟨?_, ?_, by simp⟩ <;> omega
    · split
      · simp only [List.forall_mem_cons, UInt8.toNat_ofNat']
        refine ⟨?_, ?_, ?_, by simp⟩ <;> omega
      · simp only [List.forall_mem_cons, UInt8.toNat_ofNat']
        refine ⟨?_, ?_, ?_, ?_, by simp⟩ <;> omega
  exact every byte member

/-- An ASCII byte occurs only in the encoding of its own character. -/
theorem eq_of_mem_utf8EncodeChar
    {c d : Char} (ascii : d.toNat < 128)
    (member : UInt8.ofNat d.toNat ∈ String.utf8EncodeChar c) : c = d := by
  have byte : (UInt8.ofNat d.toNat).toNat = d.toNat := by
    rw [UInt8.toNat_ofNat']
    omega
  rcases Nat.lt_or_ge c.toNat 128 with small | large
  · rw [utf8EncodeChar_of_ascii small, List.mem_singleton] at member
    have same := congrArg UInt8.toNat member
    rw [byte, UInt8.toNat_ofNat', Nat.mod_eq_of_lt (by omega)] at same
    exact Char.toNat_inj.mp same.symm
  · have := le_of_mem_utf8EncodeChar large member
    omega

/-- Bytes without a line feed belong to the line that is being read. -/
theorem linesFrom_append {bytes : List UInt8} (inside : 10 ∉ bytes) (current rest : List UInt8) :
    linesFrom current (bytes ++ rest) = linesFrom (bytes.reverse ++ current) rest := by
  induction bytes generalizing current with
  | nil => rfl
  | cons byte bytes ih =>
      have different : byte ≠ 10 := fun same => inside (same ▸ List.mem_cons_self)
      have insideRest : 10 ∉ bytes := fun later => inside (List.mem_cons_of_mem _ later)
      rw [List.cons_append, linesFrom, if_neg different, ih insideRest, List.reverse_cons,
        List.append_assoc, List.singleton_append]

theorem dropReturn_of_ne {bytes : List UInt8} (noReturn : bytes.head? ≠ some 13) :
    dropReturn bytes = bytes := by
  unfold dropReturn
  split
  · exact absurd rfl noReturn
  · rfl

/-- The encoded lines of a text, if the given bytes stand before the text. -/
def encodeLines (before : List UInt8) : List (List Char) → List (List UInt8)
  | [] => if before.isEmpty then [] else [before]
  | line :: lines => (before ++ encode line) :: lines.map encode

theorem encodeLines_nil (lines : List (List Char)) : encodeLines [] lines = lines.map encode := by
  cases lines <;> rfl

theorem encodeLines_beginFirst (before : List UInt8) (c : Char) (lines : List (List Char)) :
    encodeLines before (beginFirst c lines) =
      encodeLines (before ++ String.utf8EncodeChar c) lines := by
  cases lines with
  | nil => simp [encodeLines, beginFirst, encode]
  | cons line lines => simp [encodeLines, beginFirst, encode]

/-- The lines of an encoded text, if the bytes before it are those of an unfinished line; a carriage
return at their end must not meet a line feed. -/
theorem linesFrom_encode
    {current : List UInt8} {text : List Char}
    (apart : current.head? = some 13 → text.head? ≠ some '\n') :
    linesFrom current (encode text) = encodeLines current.reverse (textLines text) := by
  induction text using textLines.induct generalizing current with
  | case1 =>
      rw [encode_nil, linesFrom, textLines, encodeLines, List.isEmpty_reverse]
  | case2 rest ih =>
      have noReturn : current.head? ≠ some 13 := fun ends => apart ends rfl
      have bytes : encode ('\n' :: rest) = 10 :: encode rest := rfl
      rw [bytes, linesFrom, if_pos rfl, dropReturn_of_ne noReturn, ih (by simp), textLines,
        encodeLines, List.reverse_nil, encodeLines_nil, encode_nil, List.append_nil]
  | case3 rest ih =>
      have bytes : encode ('\r' :: '\n' :: rest) = 13 :: 10 :: encode rest := rfl
      rw [bytes, linesFrom, if_neg (by decide), linesFrom, if_pos rfl, dropReturn, ih (by simp),
        textLines, encodeLines, List.reverse_nil, encodeLines_nil, encode_nil, List.append_nil]
  | case4 c rest notFeed notEnding ih =>
      have inside : 10 ∉ String.utf8EncodeChar c := fun member =>
        notFeed (eq_of_mem_utf8EncodeChar (d := '\n') (by decide) member)
      have apartRest : ((String.utf8EncodeChar c).reverse ++ current).head? = some 13 →
          rest.head? ≠ some '\n' := by
        intro ends begins
        have last : 13 ∈ String.utf8EncodeChar c := by
          obtain ⟨byte, before, whole⟩ :=
            List.exists_cons_of_ne_nil (List.reverse_ne_nil_iff.mpr (String.utf8EncodeChar_ne_nil))
          rw [whole, List.cons_append, List.head?_cons, Option.some.injEq] at ends
          rw [← List.mem_reverse, whole, ends]
          exact List.mem_cons_self
        obtain ⟨after, rfl⟩ := List.head?_eq_some_iff.mp begins
        exact notEnding after (eq_of_mem_utf8EncodeChar (d := '\r') (by decide) last) rfl
      rw [encode_cons, linesFrom_append inside, ih apartRest, textLines, encodeLines_beginFirst,
        List.reverse_append, List.reverse_reverse]
      · exact notFeed
      · exact notEnding

/-- Cutting the encoding of a text into lines gives the encodings of its lines. -/
theorem lines_encode (text : List Char) : lines (encode text) = (textLines text).map encode := by
  rw [lines, linesFrom_encode (by simp), List.reverse_nil, encodeLines_nil]

/-- The lines of an encoded text are decoded one by one as the lines of the text. -/
theorem map_decode?_lines (text : List Char) :
    (lines (encode text)).map decode? = (textLines text).map some := by
  rw [lines_encode, List.map_map]
  apply List.map_congr_left
  intro line _
  exact decode?_eq_some_iff.mpr rfl

end PatternAutomata.Text
