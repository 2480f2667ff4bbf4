import NameRecovery.Command.Run
import NameRecovery.File.Memory
import NameRecovery.Main
import NameRecovery.Proofs.Scope.Fresh
import NameRecovery.Proofs.Scope.Naming
import NameRecovery.Proofs.Scope.Walk
import NameRecovery.Proofs.Scope.Nesting
import NameRecovery.Proofs.Tree.Schema
import NameRecovery.Proofs.Scope.Declared
import NameRecovery.Proofs.Scope.Label
import NameRecovery.Proofs.Scope.Lockstep
import NameRecovery.Proofs.Scope.Announced
import NameRecovery.Proofs.Scope.Reanalysis
import NameRecovery.Proofs.Scope.Idempotence
import NameRecovery.Proofs.Scope.Globals
import NameRecovery.Proofs.Inference
import NameRecovery.Proofs.Printer.Reparse
import NameRecovery.Proofs.Interface
import NameRecovery.Proofs.Printer.Reading
import NameRecovery.Proofs.Printer.Operator
import NameRecovery.Proofs.Scope.Equivariance
import NameRecovery.Proofs.Grammar.Words
import NameRecovery.Proofs.Printer.DefaultExport
import NameRecovery.Proofs.Outcome
import NameRecovery.Proofs.Grammar.Invariant
import NameRecovery.Proofs.Grammar.Lexicon
import NameRecovery.Proofs.Grammar.Made.Sequence
import NameRecovery.Proofs.Grammar.Made.Expression
import NameRecovery.Proofs.Grammar.Made.Statement
import NameRecovery.Proofs.Printer.Coverage.Basic
import NameRecovery.Proofs.Printer.Coverage.Expression
import NameRecovery.Proofs.Printer.Coverage.Statement
import NameRecovery.Proofs.Grammar.Bare
import NameRecovery.Proofs.Printer.Indentation
import NameRecovery.Proofs.Printer.ForeignIndent
import NameRecovery.Proofs.Scope.Enclosing
import NameRecovery.Proofs.Scope.Tally
import NameRecovery.Proofs.Scope.TopLevel
import NameRecovery.Proofs.Scope.Defaults
import NameRecovery.Proofs.Decimal.Shortest
import NameRecovery.Proofs.Json.Number
import NameRecovery.Proofs.Json.Quoted
import NameRecovery.Proofs.Json.RoundTrip
import NameRecovery.Proofs.Json.Decoded
import NameRecovery.Proofs.Json.Limit
import NameRecovery.Proofs.Requests
import NameRecovery.Proofs.Tree.Proper
import NameRecovery.Proofs.RenamingWalk
import NameRecovery.Proofs.Rounds
import NameRecovery.Proofs.Mining.Shape
import NameRecovery.Proofs.Mining.Leftmost
import NameRecovery.Proofs.Mining.Candidates
import NameRecovery.Proofs.Printer.Outline
import NameRecovery.Proofs.Printer.LoopStart
import NameRecovery.Proofs.Profile.Choice
import NameRecovery.Proofs.Profile.Histogram
import NameRecovery.Proofs.Mining.Final
import NameRecovery.Proofs.FunctionNames.Insertion
import NameRecovery.Proofs.Passes
import NameRecovery.Proofs.Config
import NameRecovery.Proofs.Scope.Rerun
import NameRecovery.Proofs.Scope.Session
import NameRecovery.Proofs.Scope.Traversal
import NameRecovery.Proofs.Traversals
