import PatternAutomata.Text.Lines

/-!
# Lines of characters

The lines of a text are cut here from its characters, and not from the bytes that encode them.  A
line feed ends a line, together with a carriage return right before it; whatever follows the last
line feed is a line of its own unless it is empty.  Which texts consist of given lines is told
apart from the cutting, by how the lines are written; and so is where the first line stands that
encodes no characters.
-/

namespace PatternAutomata.Text

/-- The bytes that encode the characters in UTF-8. -/
def encode (text : List Char) : List UInt8 := text.flatMap String.utf8EncodeChar

/-- The lines with a character put before the first; without any line it is one of its own. -/
def beginFirst (c : Char) : List (List Char) → List (List Char)
  | [] => [[c]]
  | line :: lines => (c :: line) :: lines

/-- The lines of a text, without their endings. -/
def textLines : List Char → List (List Char)
  | [] => []
  | '\n' :: rest => [] :: textLines rest
  | '\r' :: '\n' :: rest => [] :: textLines rest
  | c :: rest => beginFirst c (textLines rest)

/-- What a line may end with. -/
inductive LineEnding where
  /-- a line feed -/
  | feed
  /-- a carriage return and a line feed -/
  | returnFeed
deriving DecidableEq

def LineEnding.text : LineEnding → List Char
  | .feed => ['\n']
  | .returnFeed => ['\r', '\n']

/-- The line does not end before its ending, nor does a character of the line count as a part of
the ending. -/
structure LineEnding.Fits (ending : LineEnding) (line : List Char) : Prop where
  no_feed : '\n' ∉ line
  no_return : ending = .feed → line.getLast? ≠ some '\r'

/-- The text consists of the lines, each with an ending that fits it; the last line needs none
unless it is empty. -/
inductive ConsistsOf : List (List Char) → List Char → Prop where
  | nil : ConsistsOf [] []
  | unfinished {line : List Char} : line ≠ [] → '\n' ∉ line → ConsistsOf [line] line
  | cons {ending : LineEnding} {line text : List Char} {lines : List (List Char)} :
      ending.Fits line → ConsistsOf lines text →
      ConsistsOf (line :: lines) (line ++ ending.text ++ text)

/-- The text of the lines if all of them have the same ending. -/
def writeLines (ending : LineEnding) (lines : List (List Char)) : List Char :=
  lines.flatMap (· ++ ending.text)

/-- Reading the lines of the bytes breaks off at a line that encodes no characters: whole lines that
encode characters stand before it, and nothing or a line feed comes right after it. -/
structure BreaksOff (before line after : List UInt8) : Prop where
  whole : before ≠ [] → before.getLast? = some 10
  readable : ∃ text, decode? before = some text
  no_feed : 10 ∉ line
  unreadable : decode? line = none
  ended : after ≠ [] → after.head? = some 10

end PatternAutomata.Text
