/-!
# Lines of encoded text

Cuts bytes into lines and reads the lines as UTF-8.  A line ends with a line feed, and a carriage
return right before that line feed belongs to the ending too.  The last line needs no ending; what
it holds is then kept as it is.
-/

namespace PatternAutomata.Text

/-- The content of a line whose reversed bytes are given, its line feed apart. -/
def dropReturn : List UInt8 → List UInt8
  | 13 :: bytes => bytes
  | bytes => bytes

/-- The lines of the bytes, if the bytes read of the first line so far are the given ones, the
latest first. -/
def linesFrom (current : List UInt8) : List UInt8 → List (List UInt8)
  | [] => if current.isEmpty then [] else [current.reverse]
  | byte :: rest =>
    if byte = 10 then (dropReturn current).reverse :: linesFrom [] rest
    else linesFrom (byte :: current) rest

/-- The lines of the bytes, without their endings. -/
def lines (bytes : List UInt8) : List (List UInt8) := linesFrom [] bytes

/-- The characters that the bytes encode in UTF-8, if they encode any. -/
def decode? (bytes : List UInt8) : Option (List Char) :=
  (String.fromUTF8? ⟨bytes.toArray⟩).map String.toList

end PatternAutomata.Text
