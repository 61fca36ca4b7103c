import ParsingMachine.Main
import ParsingMachine.Log
import ParsingMachine.Proofs.CharSet.Membership
import ParsingMachine.Proofs.CharSet.Canonical
import ParsingMachine.Proofs.Grammar.Semantics
import ParsingMachine.Proofs.Grammar.WellFormed
import ParsingMachine.Proofs.Grammar.LeftRecursion
import ParsingMachine.Proofs.Grammar.Reachability
import ParsingMachine.Proofs.Program.Implementation
import ParsingMachine.Proofs.Program.Layout
import ParsingMachine.Proofs.Program.Compiling
import ParsingMachine.Proofs.Machine.Runs
import ParsingMachine.Proofs.Machine.Depth
import ParsingMachine.Proofs.Machine.Instructions
import ParsingMachine.Proofs.Machine.Positions
import ParsingMachine.Proofs.Machine.AnyCase
import ParsingMachine.Proofs.Program.Plain
import ParsingMachine.Proofs.Program.Correctness
import ParsingMachine.Proofs.Program.Halting
import ParsingMachine.Proofs.Program.Optimising
import ParsingMachine.Proofs.Program.Balance
import ParsingMachine.Proofs.Program.Linking
import ParsingMachine.Proofs.Program.Blaming
import ParsingMachine.Proofs.Program.Reordering
import ParsingMachine.Proofs.Program.Nesting
import ParsingMachine.Proofs.Program.Safety
import ParsingMachine.Proofs.Program.Budget
import ParsingMachine.Proofs.Program.Relocation
import ParsingMachine.Proofs.Program.Pruning
import ParsingMachine.Proofs.Reader.Spelling
import ParsingMachine.Proofs.Reader.Tokens
import ParsingMachine.Proofs.Reader.Soundness
import ParsingMachine.Proofs.Reader.Completeness
import ParsingMachine.Proofs.Reader.Language
import ParsingMachine.Proofs.Reader.RoundTrip
import ParsingMachine.Proofs.Reader.Unlimited
import ParsingMachine.Proofs.Reader.Enclosing
import ParsingMachine.Proofs.Program.Rereading
import ParsingMachine.Proofs.Machine.Executions
import ParsingMachine.Proofs.Program.Profiling
import ParsingMachine.Proofs.Reader.Faults
import ParsingMachine.Proofs.Reader.Reports
import ParsingMachine.Proofs.Reader.Lookahead
import ParsingMachine.Proofs.Reader.HeightLimit
import ParsingMachine.Proofs.Reader.Composing
import ParsingMachine.Proofs.Program.Objections
import ParsingMachine.Proofs.Program.Warnings
import ParsingMachine.Proofs.Reader.Literals
import ParsingMachine.Proofs.Reader.Causes
import ParsingMachine.Proofs.Reader.Defining
import ParsingMachine.Proofs.CommandLine.Arguments
import ParsingMachine.Proofs.Program.Growth
import ParsingMachine.Proofs.CommandLine.Subjects
