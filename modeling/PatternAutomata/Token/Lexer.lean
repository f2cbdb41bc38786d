import PatternAutomata.SyntaxError
import PatternAutomata.Text.Blank
import PatternAutomata.Token

/-!
# Reading tokens

A pattern is read in two passes.  The first drops unescaped blanks and resolves backslashes; what
is left are the significant characters, each with its position.  The second groups them into
tokens: an unescaped bracket takes the next four significant characters for a class, and every
other character is a token of its own.

Because the first pass sees the whole pattern before the second begins, a backslash at the end is
reported before any other fault.
-/

namespace PatternAutomata

/-- A character of a pattern that carries meaning; an escaped one stands where its backslash does. -/
structure SignificantChar where
  position : Nat
  value : Char
  escaped : Bool
deriving DecidableEq

/-- The significant characters of a text, and the position just past the last character of all. -/
structure ScannedText where
  characters : List SignificantChar
  stop : Nat
deriving DecidableEq

def ScannedText.cons (character : SignificantChar) (scanned : ScannedText) : ScannedText :=
  { scanned with characters := character :: scanned.characters }

namespace SignificantChar

/-- Scans a text whose first character has the given position; what has been scanned so far stops at
the second position. -/
def scanFrom (position stop : Nat) : List Char → Except SyntaxError ScannedText
  | [] => .ok ⟨[], stop⟩
  | ['\\'] => .error ⟨.trailingEscape, position⟩
  | '\\' :: c :: rest => do
    let following ← scanFrom (position + 2) (position + 2) rest
    return following.cons ⟨position, c, true⟩
  | c :: rest => do
    let following ← scanFrom (position + 1) (position + 1) rest
    return if Text.isBlank c then following else following.cons ⟨position, c, false⟩

/-- The class that four significant characters after an opening bracket name: three for its body
and a closing bracket, none of them escaped. -/
def classOf? (c₁ c₂ c₃ c₄ : SignificantChar) : Option CharClass :=
  if c₁.escaped || c₂.escaped || c₃.escaped || c₄.escaped then none
  else if c₄.value = ']' then CharClass.ofBody? [c₁.value, c₂.value, c₃.value]
  else none

end SignificantChar

namespace PlacedToken

open SignificantChar in
/-- Groups significant characters into tokens. -/
def group : List SignificantChar → Except SyntaxError (List PlacedToken)
  | [] => .ok []
  | ⟨position, c, true⟩ :: rest => do
    let following ← group rest
    return ⟨position, .literal c⟩ :: following
  | ⟨position, '[', false⟩ :: c₁ :: c₂ :: c₃ :: c₄ :: rest =>
    match classOf? c₁ c₂ c₃ c₄ with
    | none => .error ⟨.unknownClass, position⟩
    | some cls => do
      let following ← group rest
      return ⟨position, .charClass cls⟩ :: following
  | ⟨position, '[', false⟩ :: _ => .error ⟨.unknownClass, position⟩
  | ⟨position, c, false⟩ :: rest => do
    let following ← group rest
    return ⟨position, .ofChar c⟩ :: following

end PlacedToken

/-- The tokens of a pattern, and the position just past its last character. -/
structure TokenSequence where
  tokens : List PlacedToken
  stop : Nat
deriving DecidableEq

def TokenSequence.read (pattern : List Char) : Except SyntaxError TokenSequence := do
  let scanned ← SignificantChar.scanFrom 0 0 pattern
  let tokens ← PlacedToken.group scanned.characters
  return ⟨tokens, scanned.stop⟩

end PatternAutomata
