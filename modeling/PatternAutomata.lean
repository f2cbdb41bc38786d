import PatternAutomata.CommandLine.Contract
import PatternAutomata.Dfa.Built
import PatternAutomata.Dfa.Completion
import PatternAutomata.Dfa.Entry
import PatternAutomata.Main
import PatternAutomata.Nfa.Built
import PatternAutomata.Nfa.Deterministic
import PatternAutomata.Nfa.Entry
import PatternAutomata.Nfa.Growth
import PatternAutomata.Nfa.Listing
import PatternAutomata.Nfa.Run
import PatternAutomata.Nfa.Search
import PatternAutomata.Nfa.Trace
import PatternAutomata.Pattern.Calls
import PatternAutomata.Pattern.Denotation
import PatternAutomata.Pattern.Grammar
import PatternAutomata.Pattern.Height
import PatternAutomata.Pattern.Language
import PatternAutomata.Pattern.Nested
import PatternAutomata.Pattern.Regrouping
import PatternAutomata.Pattern.Spelling
import PatternAutomata.Pattern.Verdict
import PatternAutomata.Proofs.Building
import PatternAutomata.Proofs.CommandLine
import PatternAutomata.Proofs.CommandLine.Caret
import PatternAutomata.Proofs.CommandLine.Dump
import PatternAutomata.Proofs.Dfa.Completion
import PatternAutomata.Proofs.Dfa.Listing
import PatternAutomata.Proofs.Dfa.Reading
import PatternAutomata.Proofs.Dfa.Relabeling
import PatternAutomata.Proofs.Dfa.Rows
import PatternAutomata.Proofs.Matcher
import PatternAutomata.Proofs.Nfa.BreadthFirst
import PatternAutomata.Proofs.Nfa.DeadSubsets
import PatternAutomata.Proofs.Nfa.Deterministic
import PatternAutomata.Proofs.Nfa.Determinization
import PatternAutomata.Proofs.Nfa.Discovery
import PatternAutomata.Proofs.Nfa.Embedding
import PatternAutomata.Proofs.Nfa.EpsilonClosure
import PatternAutomata.Proofs.Nfa.Exhaustion
import PatternAutomata.Proofs.Nfa.Growth
import PatternAutomata.Proofs.Nfa.Listing
import PatternAutomata.Proofs.Nfa.Numbered
import PatternAutomata.Proofs.Nfa.Parts
import PatternAutomata.Proofs.Nfa.Relabeling
import PatternAutomata.Proofs.Nfa.Searching
import PatternAutomata.Proofs.Nfa.Worklist
import PatternAutomata.Proofs.Ordered.Images
import PatternAutomata.Proofs.Ordered.Listed
import PatternAutomata.Proofs.Ordered.Renaming
import PatternAutomata.Proofs.Pattern.Ascending
import PatternAutomata.Proofs.Pattern.Canonical
import PatternAutomata.Proofs.Pattern.Chains
import PatternAutomata.Proofs.Pattern.Completeness
import PatternAutomata.Proofs.Pattern.Construction
import PatternAutomata.Proofs.Pattern.Denotation
import PatternAutomata.Proofs.Pattern.Faults
import PatternAutomata.Proofs.Pattern.Height
import PatternAutomata.Proofs.Pattern.Insertion
import PatternAutomata.Proofs.Pattern.Languages
import PatternAutomata.Proofs.Pattern.OnePass
import PatternAutomata.Proofs.Pattern.Positions
import PatternAutomata.Proofs.Pattern.Regrouping
import PatternAutomata.Proofs.Pattern.Shape
import PatternAutomata.Proofs.Pattern.Verdicts
import PatternAutomata.Proofs.Relabeling
import PatternAutomata.Proofs.Text.Entry
import PatternAutomata.Proofs.Text.Lines
import PatternAutomata.Proofs.Text.Unreadable
import PatternAutomata.Proofs.Text.Writing
import PatternAutomata.Proofs.Token.Faults
import PatternAutomata.Proofs.Token.Insertion
import PatternAutomata.Proofs.Token.Reading
import PatternAutomata.Proofs.Token.Spellings
import PatternAutomata.Proofs.Token.Writings
import PatternAutomata.Text.Entry
import PatternAutomata.Token.Spelling
