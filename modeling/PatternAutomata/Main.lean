import PatternAutomata.CommandLine

/-!
# The program

Connects the command line to the streams of the process.
-/

namespace PatternAutomata.CommandLine

partial def readAll (stream : IO.FS.Stream) (bytes : ByteArray) : IO ByteArray := do
  let more ← stream.read 65536
  if more.isEmpty then return bytes
  readAll stream (bytes ++ more)

end PatternAutomata.CommandLine

open PatternAutomata in
def main (arguments : List String) : IO UInt32 := do
  let arguments := arguments.map String.toList
  let input ←
    if CommandLine.readsInput arguments then CommandLine.readAll (← IO.getStdin) .empty
    else pure .empty
  let outcome := CommandLine.run arguments input.toList
  (← IO.getStdout).putStr (String.ofList outcome.out)
  (← IO.getStderr).putStr (String.ofList outcome.err)
  if outcome.ending = .unreadable then
    IO.eprintln ("I/O error: " ++ CommandLine.unreadableMessage)
  return outcome.ending.exitCode.toUInt32
