import ScriptLang.Code.Basic
import ScriptLang.Code.Compiler
import ScriptLang.Code.Listing
import ScriptLang.Command
import ScriptLang.Console
import ScriptLang.Datum.Arith
import ScriptLang.Datum.Basic
import ScriptLang.Datum.Bits
import ScriptLang.Datum.Order
import ScriptLang.Datum.Pattern
import ScriptLang.Digest.Sha256
import ScriptLang.Eval.Basic
import ScriptLang.Eval.Numeric
import ScriptLang.Eval.Run
import ScriptLang.Fault
import ScriptLang.IR.Basic
import ScriptLang.IR.Build
import ScriptLang.IR.Library
import ScriptLang.Json.Basic
import ScriptLang.Json.Read
import ScriptLang.Machine.Basic
import ScriptLang.Machine.Operation
import ScriptLang.Machine.Run
import ScriptLang.Main
import ScriptLang.Number.Display
import ScriptLang.Number.Dyadic
import ScriptLang.Number.Numeral
import ScriptLang.Number.Places
import ScriptLang.Number.Power
import ScriptLang.Number.Rounded
import ScriptLang.Number.Shortest
import ScriptLang.Parse.Binding
import ScriptLang.Parse.Cursor
import ScriptLang.Parse.Expr
import ScriptLang.Parse.Rule
import ScriptLang.Parse.Stmt
import ScriptLang.Postfix
import ScriptLang.Profile.Bench
import ScriptLang.Profile.Column
import ScriptLang.Profile.CoverTable
import ScriptLang.Profile.Coverage
import ScriptLang.Profile.HeatTable
import ScriptLang.Profile.History
import ScriptLang.Profile.Hotspot
import ScriptLang.Profile.Path
import ScriptLang.Profile.Round
import ScriptLang.Profile.SelfCheck
import ScriptLang.Profile.Share
import ScriptLang.Profile.Verdict
import ScriptLang.Profile.VerdictTable
import ScriptLang.Proofs.Code.Additions
import ScriptLang.Proofs.Code.Balance
import ScriptLang.Proofs.Code.Calls
import ScriptLang.Proofs.Code.Emits
import ScriptLang.Proofs.Code.Growth
import ScriptLang.Proofs.Code.Heights
import ScriptLang.Proofs.Code.Labels
import ScriptLang.Proofs.Code.Plans
import ScriptLang.Proofs.Code.Sites
import ScriptLang.Proofs.Code.Storage
import ScriptLang.Proofs.Code.Symbols
import ScriptLang.Proofs.Code.Targets
import ScriptLang.Proofs.Console
import ScriptLang.Proofs.Eval.Activation
import ScriptLang.Proofs.Eval.Confinement
import ScriptLang.Proofs.Eval.CountedLoops
import ScriptLang.Proofs.Eval.Course
import ScriptLang.Proofs.Eval.Fitting
import ScriptLang.Proofs.Eval.Fuel
import ScriptLang.Proofs.Eval.Lexical
import ScriptLang.Proofs.Eval.LoopScope
import ScriptLang.Proofs.Eval.Moments
import ScriptLang.Proofs.Eval.Results
import ScriptLang.Proofs.Eval.Returns
import ScriptLang.Proofs.Eval.Tags
import ScriptLang.Proofs.IR.Additions
import ScriptLang.Proofs.IR.Building
import ScriptLang.Proofs.IR.Dominance
import ScriptLang.Proofs.IR.Fitting
import ScriptLang.Proofs.IR.Flow
import ScriptLang.Proofs.IR.Numbering
import ScriptLang.Proofs.IR.Regions
import ScriptLang.Proofs.IR.Sites
import ScriptLang.Proofs.IR.Validity
import ScriptLang.Proofs.IR.Views
import ScriptLang.Proofs.Machine.Counting
import ScriptLang.Proofs.Machine.Landing
import ScriptLang.Proofs.Machine.Moves
import ScriptLang.Proofs.Machine.Operations
import ScriptLang.Proofs.Machine.Orderly
import ScriptLang.Proofs.Machine.Parameters
import ScriptLang.Proofs.Machine.Points
import ScriptLang.Proofs.Machine.Safety
import ScriptLang.Proofs.Machine.Spots
import ScriptLang.Proofs.Machine.Start
import ScriptLang.Proofs.Machine.Stepping
import ScriptLang.Proofs.Number.Reading
import ScriptLang.Proofs.Parse.Agreement
import ScriptLang.Proofs.Parse.BindingRules
import ScriptLang.Proofs.Parse.BindingSteps
import ScriptLang.Proofs.Parse.Calls
import ScriptLang.Proofs.Parse.Complete
import ScriptLang.Proofs.Parse.Concatenation
import ScriptLang.Proofs.Parse.Failures
import ScriptLang.Proofs.Parse.Grammar
import ScriptLang.Proofs.Parse.Local
import ScriptLang.Proofs.Parse.Rules
import ScriptLang.Proofs.Parse.Sound
import ScriptLang.Proofs.Parse.Sources
import ScriptLang.Proofs.Parse.StmtRules
import ScriptLang.Proofs.Parse.Whole
import ScriptLang.Proofs.Postfix.Accounting
import ScriptLang.Proofs.Postfix.Conversion
import ScriptLang.Proofs.Postfix.Formula
import ScriptLang.Proofs.Scope.Chain
import ScriptLang.Proofs.Scope.Confined
import ScriptLang.Proofs.Scope.Lookup
import ScriptLang.Proofs.Scope.Updates
import ScriptLang.Proofs.Sequence
import ScriptLang.Proofs.Simulation.Blocks
import ScriptLang.Proofs.Simulation.Call
import ScriptLang.Proofs.Simulation.CallFree
import ScriptLang.Proofs.Simulation.Connectives
import ScriptLang.Proofs.Simulation.Expr
import ScriptLang.Proofs.Simulation.Layers
import ScriptLang.Proofs.Simulation.Outcome
import ScriptLang.Proofs.Simulation.PlainExpr
import ScriptLang.Proofs.Simulation.Program
import ScriptLang.Proofs.Simulation.Stmt
import ScriptLang.Proofs.Simulation.TopLevel
import ScriptLang.Proofs.Simulation.World
import ScriptLang.Proofs.Text.Classes
import ScriptLang.Proofs.Text.Words
import ScriptLang.Proofs.Token.Cuts
import ScriptLang.Proofs.Token.Joining
import ScriptLang.Proofs.Token.Lines
import ScriptLang.Proofs.Token.Segments
import ScriptLang.Proofs.Token.Spacing
import ScriptLang.Proofs.Token.Spelling
import ScriptLang.Proofs.Tree.Everywhere
import ScriptLang.Proofs.Tree.Lines
import ScriptLang.Proofs.Tree.Scoping
import ScriptLang.Proofs.Tree.Shape
import ScriptLang.Proofs.Value.Division
import ScriptLang.Proofs.Value.Faults
import ScriptLang.Proofs.Value.Honest
import ScriptLang.Proofs.Value.Truthful
import ScriptLang.Report
import ScriptLang.Sample
import ScriptLang.Scope.Forest
import ScriptLang.Table
import ScriptLang.Text.Blank
import ScriptLang.Text.Digit
import ScriptLang.Text.Escape
import ScriptLang.Text.Indented
import ScriptLang.Text.Letter
import ScriptLang.Text.Newline
import ScriptLang.Text.Octets
import ScriptLang.Text.Printable
import ScriptLang.Text.Quoted
import ScriptLang.Text.Ranges
import ScriptLang.Token.Basic
import ScriptLang.Token.Scanner
import ScriptLang.Tree.Basic
import ScriptLang.Tree.Form
import ScriptLang.Tree.Outline
import ScriptLang.Value.Basic
import ScriptLang.Workload
