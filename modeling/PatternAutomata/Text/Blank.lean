/-!
# Blanks

The characters with the Unicode property `White_Space`.  A pattern may hold them anywhere between
its significant characters, where they carry no meaning.
-/

namespace PatternAutomata.Text

/-- Whether the code point of the character lies in one of the intervals. -/
def inRanges (ranges : List (Nat × Nat)) (c : Char) : Bool :=
  ranges.any fun (low, high) => low ≤ c.toNat && c.toNat ≤ high

/-- The intervals of code points that make up `White_Space`, in ascending order. -/
def blankRanges : List (Nat × Nat) :=
  [(0x9, 0xD), (0x20, 0x20), (0x85, 0x85), (0xA0, 0xA0), (0x1680, 0x1680), (0x2000, 0x200A),
    (0x2028, 0x2029), (0x202F, 0x202F), (0x205F, 0x205F), (0x3000, 0x3000)]

/-- Whether the character is white space in the sense of Unicode. -/
def isBlank (c : Char) : Bool := inRanges blankRanges c

end PatternAutomata.Text
