import PatternAutomata.Dfa.Listing
import PatternAutomata.Matcher
import PatternAutomata.Text.Lines

/-!
# The command line

Matches words against a pattern and writes a verdict for each.  The words are the arguments after
the pattern or, without any, the lines of the input.
-/

namespace PatternAutomata.CommandLine

/-- How a run ends. -/
inductive Ending where
  /-- every word was accepted -/
  | accepted
  /-- some word was rejected -/
  | rejected
  /-- the arguments hold no pattern, or none that can be parsed -/
  | refused
  /-- a line of the input is no text -/
  | unreadable
deriving DecidableEq

def Ending.exitCode : Ending → Nat
  | .accepted => 0
  | .rejected => 2
  | .refused | .unreadable => 1

/-- What a run writes and reports, and how it ends. -/
structure Outcome where
  ending : Ending
  out : List Char
  err : List Char
  log : List Event
deriving DecidableEq

/-- What is written when there is no pattern. -/
def usage : String :=
  "Usage: regex_match [--dump] <pattern> [word ...]\n" ++
    "Without words, every line of stdin is matched.\n"

def unreadableMessage : String := "stream did not contain valid UTF-8"

/-- Splits off the request for a listing of the automaton. -/
def splitDump (arguments : List (List Char)) : Bool × List (List Char) :=
  match arguments with
  | [] => (false, [])
  | first :: rest => if first = "--dump".toList then (true, rest) else (false, arguments)

/-- White space as wide as the text: tabs stay, and every other character becomes a blank. -/
def indentation (text : List Char) : List Char :=
  text.map fun c => if c = '\t' then '\t' else ' '

/-- The error, then the pattern, then a caret after as many characters as precede the error. -/
def errorReport (error : SyntaxError) (pattern : List Char) : List Char :=
  ("Error: " ++ error.message ++ "\n").toList ++ pattern ++ ['\n'] ++
    indentation (pattern.take error.position) ++ ['^', '\n']

def verdictLine (word : List Char) (accepted : Bool) : List Char :=
  word ++ (if accepted then ": accepted\n" else ": rejected\n").toList

/-- What has been written so far, and whether all words reported so far have been accepted. -/
structure Report where
  out : List Char
  allAccepted : Bool

namespace Report

variable (matcher : Matcher) (report : Report)

def add (word : List Char) : Report :=
  let accepted := matcher.accepts word
  ⟨report.out ++ verdictLine word accepted, report.allAccepted && accepted⟩

/-- Reports on the word that a line of the input holds.  If it holds none, then no line after it is
read, and what has been written stays. -/
def addLine (line : List UInt8) : Except (List Char) Report :=
  match Text.decode? line with
  | none => .error report.out
  | some word => .ok (report.add matcher word)

/-- Reports on the given words or, if there are none, on the lines of the input. -/
def addAll (words : List (List Char)) (input : List UInt8) : Except (List Char) Report :=
  if words.isEmpty then (Text.lines input).foldlM (addLine matcher) report
  else .ok (words.foldl (add matcher) report)

end Report

def readsInput (arguments : List (List Char)) : Bool :=
  match (splitDump arguments).2 with
  | [pattern] => (Pattern.parse pattern).isOk
  | _ => false

def run (arguments : List (List Char)) (input : List UInt8) : Outcome :=
  let (dump, operands) := splitDump arguments
  match operands with
  | [] => ⟨.refused, [], usage.toList, []⟩
  | pattern :: words =>
    match Matcher.prepare pattern with
    | .error error => ⟨.refused, [], errorReport error pattern, []⟩
    | .ok (matcher, events) =>
      let log := events ++ [.ready pattern matcher.dfa.states.size]
      let report : Report := ⟨if dump then matcher.dfa.renumber.listing else [], true⟩
      match report.addAll matcher words input with
      | .error out => ⟨.unreadable, out, [], log⟩
      | .ok report => ⟨if report.allAccepted then .accepted else .rejected, report.out, [], log⟩

end PatternAutomata.CommandLine
