import AssertLint.Command.Line
import AssertLint.Command.Output
import AssertLint.Fix
import AssertLint.Linter
import AssertLint.Main
import AssertLint.Query.Engine
import AssertLint.Query.Fault
import AssertLint.Query.Match
import AssertLint.Query.Pattern
import AssertLint.Query.Reader
import AssertLint.Query.TextPattern
import AssertLint.Rule.Basic
import AssertLint.Rule.Described
import AssertLint.Rule.RegexAssertion
import AssertLint.Scope.Analysis
import AssertLint.Scope.BoundNames
import AssertLint.Scope.Table
import AssertLint.Script.Automaton
import AssertLint.Script.Branch
import AssertLint.Script.Character
import AssertLint.Script.Form
import AssertLint.Script.Grammar
import AssertLint.Script.Grammar.Basic
import AssertLint.Script.Grammar.Definition
import AssertLint.Script.Grammar.Expression
import AssertLint.Script.Grammar.Statement
import AssertLint.Script.Lexeme
import AssertLint.Script.Phrase
import AssertLint.Script.Reading.Basic
import AssertLint.Script.Reading.Condense
import AssertLint.Script.Reading.Step
import AssertLint.Script.Reading.Unfinished
import AssertLint.Script.Scan
import AssertLint.Script.Stack
import AssertLint.Script.Stage
import AssertLint.Script.Table
import AssertLint.Script.Tree
import AssertLint.Script.Vocabulary
import AssertLint.TestFile
import AssertLint.Text.Document
import AssertLint.Text.Source
import AssertLint.Text.StableSort
import AssertLint.Text.Template
import AssertLint.Tree.Chain
import AssertLint.Tree.Kind
import AssertLint.Tree.Node
import AssertLint.Tree.Walk
import AssertLint.Value.Access
import AssertLint.Value.Origin
import AssertLint.Proofs.Fix.Merge
import AssertLint.Proofs.Linter.Calls
import AssertLint.Proofs.Linter.Compiled
import AssertLint.Proofs.Linter.Findings
import AssertLint.Proofs.Linter.FixLoop
import AssertLint.Proofs.Linter.Passes
import AssertLint.Proofs.Linter.Independence
import AssertLint.Proofs.Linter.Violations
import AssertLint.Proofs.Query.Captured
import AssertLint.Proofs.Rule.Convergence
import AssertLint.Proofs.Rule.Finding
import AssertLint.Proofs.Rule.Fixes
import AssertLint.Proofs.Rule.Query
import AssertLint.Proofs.Rule.Reporting
import AssertLint.Proofs.Rule.Shape
import AssertLint.Proofs.Scope.BoundNames
import AssertLint.Proofs.Scope.Definitions
import AssertLint.Proofs.Scope.Entering
import AssertLint.Proofs.Scope.Entries
import AssertLint.Proofs.Scope.Filing
import AssertLint.Proofs.Scope.Links
import AssertLint.Proofs.Scope.Owner
import AssertLint.Proofs.Scope.Resolution
import AssertLint.Proofs.Scope.Sites
import AssertLint.Proofs.Scope.Tree
import AssertLint.Proofs.TestFile
import AssertLint.Proofs.Text.Cut
import AssertLint.Proofs.Text.Sorted
import AssertLint.Proofs.Tree.Chain
import AssertLint.Proofs.Tree.Cursor
import AssertLint.Proofs.Tree.Placement
import AssertLint.Proofs.Tree.Walk
import AssertLint.Proofs.Value.Access
import AssertLint.Proofs.Value.Origin
import AssertLint.Proofs.Value.Reading
import AssertLint.Proofs.Scope.Balance
import AssertLint.Proofs.Value.Tracing
import AssertLint.Proofs.Rule.Agreement
import AssertLint.Proofs.Value.Classification
import AssertLint.Proofs.Fix.Pass
import AssertLint.Proofs.Fix.AtOnce
import AssertLint.Proofs.Fix.Faults
import AssertLint.Proofs.Fix.Reordered
import AssertLint.Proofs.Fix.Outermost
import AssertLint.Proofs.Tree.Nesting
import AssertLint.Proofs.Rule.Nesting
import AssertLint.Proofs.Fix.Pieces
import AssertLint.Proofs.Rule.Kept
import AssertLint.Proofs.Linter.Repetitions
import AssertLint.Proofs.Scope.DeclarationSites
import AssertLint.Proofs.Scope.Variables
import AssertLint.Proofs.TestGate
import AssertLint.Proofs.Scope.BindingPositions
import AssertLint.Proofs.Text.Filling
import AssertLint.Proofs.Linter.Copies
import AssertLint.Proofs.Linter.Refusals
import AssertLint.Proofs.Rule.Repeated
import AssertLint.Proofs.Tree.Traversal
