/-!
# Listings of automata

The text of an automaton has a line for each state and an indented line for each entry of its row.
A state is written in parentheses, in double ones if it accepts, and the start is marked with an
angle bracket.
-/

namespace PatternAutomata.Text

def decimal (number : Nat) : List Char := Nat.toDigits 10 number

def stateLine (isStart accepting : Bool) (state : Nat) : List Char :=
  let mark := if isStart then '>' else ' '
  if accepting then mark :: '(' :: '(' :: (decimal state ++ [')', ')', '\n'])
  else mark :: '(' :: (decimal state ++ [')', '\n'])

/-- The line of the moves from a state on a symbol; the targets are separated by commas. -/
def moveLine (symbol : Char) (targets : List Nat) : List Char :=
  [' ', ' ', ' ', ' ', '-', '-', symbol, '-', '-', '>', ' '] ++
    ([',', ' '].intercalate (targets.map decimal) ++ ['\n'])

end PatternAutomata.Text
