import PatternAutomata.Text.Listing

/-!
# What listings say

A listing has an entry for each state: whether it is the start, whether it accepts, and its moves.
Entries can be read back from left to right.  The first characters of a line tell which kind of line
it is, and the symbol of a move has a fixed place in its line; so it may be any character, even one
that ends a line or that looks like a part of the writing.
-/

namespace PatternAutomata.Text

/-- A line of a listing. -/
inductive Line where
  /-- the line of a state -/
  | state (isStart accepting : Bool) (number : Nat)
  /-- the line of the moves on a symbol -/
  | moves (symbol : Char) (targets : List Nat)
deriving DecidableEq

/-- What a listing says of a state. -/
structure Entry where
  isStart : Bool
  accepting : Bool
  state : Nat
  moves : List (Char × List Nat)
deriving DecidableEq

/-- The line of a move: its symbol and its targets. -/
def Line.ofMove (move : Char × List Nat) : Line := .moves move.1 move.2

def Line.text : Line → List Char
  | .state isStart accepting number => stateLine isStart accepting number
  | .moves symbol targets => moveLine symbol targets

/-- The lines of an entry: that of the state, then those of its moves. -/
def Entry.lines (entry : Entry) : List Line :=
  .state entry.isStart entry.accepting entry.state :: entry.moves.map .ofMove

def Entry.text (entry : Entry) : List Char := entry.lines.flatMap Line.text

/-- The text up to the first line feed, and the text after it. -/
def cutLine (text : List Char) : List Char × List Char :=
  (text.takeWhile (· != '\n'), (text.dropWhile (· != '\n')).tail)

/-- The numbers in a text; whatever is no digit separates them. -/
def numbers (text : List Char) : List Nat :=
  ((text.splitOnP (!·.isDigit)).filter (!·.isEmpty)).map (Nat.ofDigitChars 10 · 0)

/-- Reads the line at the front of a text. -/
def readLine? : List Char → Option (Line × List Char)
  | ' ' :: ' ' :: ' ' :: ' ' :: '-' :: '-' :: symbol :: '-' :: '-' :: '>' :: rest =>
    let (targets, rest) := cutLine rest
    some (.moves symbol (numbers targets), rest)
  | mark :: '(' :: rest =>
    let (name, rest) := cutLine rest
    match numbers name with
    | [number] => some (.state (mark == '>') (name.head? == some '(') number, rest)
    | _ => none
  | _ => none

theorem length_cutLine_le (text : List Char) : (cutLine text).2.length ≤ text.length := by
  calc
    (cutLine text).2.length ≤ (text.dropWhile (· != '\n')).length := by simp [cutLine]
    _ ≤ text.length := (List.dropWhile_sublist _).length_le

theorem length_lt_of_readLine?
    {text rest : List Char} {line : Line} (reads : readLine? text = some (line, rest)) :
    rest.length < text.length := by
  unfold readLine? at reads
  split at reads
  case h_1 symbol after =>
      simp only [Option.some.injEq, Prod.mk.injEq] at reads
      have shorter := length_cutLine_le after
      rw [reads.2] at shorter
      simp only [List.length_cons]
      omega
  case h_2 mark after =>
      dsimp only at reads
      split at reads
      · simp only [Option.some.injEq, Prod.mk.injEq] at reads
        have shorter := length_cutLine_le after
        rw [reads.2] at shorter
        simp only [List.length_cons]
        omega
      · cases reads
  case h_3 => cases reads

/-- Reads a text line by line. -/
def readLines? (text : List Char) : Option (List Line) :=
  if text.isEmpty then some []
  else
    match _reads : readLine? text with
    | none => none
    | some (line, rest) => (readLines? rest).map (line :: ·)
termination_by text.length
decreasing_by exact length_lt_of_readLine? _reads

/-- The moves in the lines before the first state, and the entries from there on. -/
def gather : List Line → List (Char × List Nat) × List Entry
  | [] => ([], [])
  | .moves symbol targets :: rest =>
    let (moves, entries) := gather rest
    ((symbol, targets) :: moves, entries)
  | .state isStart accepting number :: rest =>
    let (moves, entries) := gather rest
    ([], ⟨isStart, accepting, number, moves⟩ :: entries)

/-- The entries that a text consists of, if it is a listing. -/
def readEntries? (text : List Char) : Option (List Entry) := do
  let lines ← readLines? text
  match gather lines with
  | ([], entries) => some entries
  | _ => none

end PatternAutomata.Text
