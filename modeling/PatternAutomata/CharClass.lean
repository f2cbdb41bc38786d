/-!
# Character classes

The three classes that a pattern can name between brackets: the ASCII digits, the lower-case and
the upper-case ASCII letters.  A class is the interval between its first and its last character,
and the two ends are also its spelling.
-/

namespace PatternAutomata

/-- A class of characters that a pattern can name. -/
inductive CharClass where
  | digit
  | lower
  | upper
deriving DecidableEq

namespace CharClass

/-- Every class, in the order of their characters' use in texts: digits, small letters, capitals. -/
def all : List CharClass := [.digit, .lower, .upper]

def first : CharClass → Char
  | .digit => '0'
  | .lower => 'a'
  | .upper => 'A'

def last : CharClass → Char
  | .digit => '9'
  | .lower => 'z'
  | .upper => 'Z'

def contains (cls : CharClass) (c : Char) : Bool :=
  cls.first ≤ c && c ≤ cls.last

def chars (cls : CharClass) : List Char :=
  (List.range' cls.first.toNat (cls.last.toNat + 1 - cls.first.toNat)).map Char.ofNat

/-- The three characters that name the class between brackets. -/
def body (cls : CharClass) : List Char := [cls.first, '-', cls.last]

/-- The class as a pattern writes it, brackets included. -/
def text (cls : CharClass) : List Char := '[' :: (cls.body ++ [']'])

/-- The class that the given characters name between brackets. -/
def ofBody? (characters : List Char) : Option CharClass :=
  all.find? fun cls => cls.body == characters

theorem mem_chars {cls : CharClass} {c : Char} : c ∈ cls.chars ↔ cls.contains c = true := by
  have ordered : cls.contains c = true ↔ cls.first.toNat ≤ c.toNat ∧ c.toNat ≤ cls.last.toNat := by
    simp only [contains, Bool.and_eq_true, decide_eq_true_eq]
    rfl
  have bounds : cls.first.toNat ≤ cls.last.toNat ∧ cls.last.toNat < 0xD800 := by
    cases cls <;> decide
  rw [ordered, chars, List.mem_map]
  constructor
  · rintro ⟨code, member, rfl⟩
    have range := List.mem_range'_1.mp member
    have valid : code.isValidChar := Or.inl (by omega)
    have chosen : Char.ofNat code = Char.ofNatAux code valid := dif_pos valid
    have same : (Char.ofNat code).toNat = code := by
      rw [chosen]
      rfl
    omega
  · intro within
    exact ⟨c.toNat, List.mem_range'_1.mpr (by omega), Char.ofNat_toNat c⟩

end CharClass

end PatternAutomata
