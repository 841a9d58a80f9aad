import Bindery.Text.Span
import Bindery.Text.LineMap
import Bindery.NameTable
import Bindery.Diagnostic.Message
import Bindery.Diagnostic.Format
import Bindery.Diagnostic.Basic
import Bindery.Diagnostic.Log
import Bindery.Diagnostic.Rendered
import Bindery.Number.Binary
import Bindery.Number.Decimal
import Bindery.Json.Basic
import Bindery.Json.Reader
import Bindery.Syntax.Modifiers
import Bindery.Syntax.Operator
import Bindery.Syntax.Tree
import Bindery.Text.Dotted
import Bindery.Syntax.Build
import Bindery.Syntax.Load
import Bindery.Constant.Value
import Bindery.Program.Id
import Bindery.Program.Node
import Bindery.Program.Scope
import Bindery.Program.Symbol
import Bindery.Program.Basic
import Bindery.Program.Builtin
import Bindery.Program.Layout
import Bindery.Program.Lookup
import Bindery.Program.Walk
import Bindery.Constant.Eval
import Bindery.Conversion.Plan
import Bindery.Dump.Program
import Bindery.Binding
import Bindery.CommandLine
import Bindery.Main
import Bindery.Proofs.TypedTrees
import Bindery.Proofs.CastPlans
import Bindery.Proofs.Captures
import Bindery.Proofs.SharedInstances
import Bindery.Proofs.CallTypes
import Bindery.Proofs.Reports
import Bindery.Proofs.ClosureValues
import Bindery.Proofs.ErrorCap
import Bindery.Proofs.Termination
import Bindery.Proofs.Verification
import Bindery.Proofs.Provenance
import Bindery.Proofs.Shadowing
import Bindery.Proofs.ScopeGraph
import Bindery.Proofs.ModuleBinding
import Bindery.Proofs.Jumps
import Bindery.Proofs.TypeIdentity
import Bindery.Proofs.Evaluation
import Bindery.Proofs.ConstantTypes
import Bindery.Proofs.RecordedSizes
import Bindery.Proofs.Walks
import Bindery.Proofs.Refusals
import Bindery.Proofs.ConstantCasts
import Bindery.Proofs.ArgumentSlots
import Bindery.Proofs.ExactArithmetic
import Bindery.Proofs.StableConstants
import Bindery.Proofs.OverloadOrder
import Bindery.Proofs.Layouts
import Bindery.Proofs.OperandRuns
import Bindery.Proofs.CompoundAssignments
import Bindery.Proofs.OperandOrder
import Bindery.Proofs.Summaries
import Bindery.Proofs.Aliases
import Bindery.Proofs.LoadedMembers
import Bindery.Proofs.FieldLists
import Bindery.Proofs.MergedLogs
import Bindery.Proofs.FilledTemplates
import Bindery.Proofs.FreshNames
import Bindery.Proofs.LoadedSpans
import Bindery.Proofs.LinePlaces
