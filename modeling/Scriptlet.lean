import Scriptlet.Command.Arguments
import Scriptlet.Command.Basic
import Scriptlet.Command.Log
import Scriptlet.Config.Basic
import Scriptlet.Config.File
import Scriptlet.Data.Assoc
import Scriptlet.Eval.Basic
import Scriptlet.Eval.Environment
import Scriptlet.Eval.Interpreter
import Scriptlet.Eval.Machine
import Scriptlet.Eval.Operation
import Scriptlet.Failure.Basic
import Scriptlet.Failure.Cause
import Scriptlet.Failure.Expected
import Scriptlet.Failure.Report
import Scriptlet.Main
import Scriptlet.Native.Basic
import Scriptlet.Native.Registry
import Scriptlet.Native.Signal
import Scriptlet.Native.Standard
import Scriptlet.Native.System
import Scriptlet.Source.Position
import Scriptlet.Syntax.Graph
import Scriptlet.Syntax.Node
import Scriptlet.Syntax.Operator
import Scriptlet.Syntax.Outline
import Scriptlet.Syntax.Program
import Scriptlet.Syntax.Reader
import Scriptlet.Text.CodeRange
import Scriptlet.Text.Decimal
import Scriptlet.Text.Digit
import Scriptlet.Text.Lines
import Scriptlet.Text.PathText
import Scriptlet.Text.Printable
import Scriptlet.Text.Quoted
import Scriptlet.Text.Upper
import Scriptlet.Token.Basic
import Scriptlet.Token.Scanner
import Scriptlet.Value.Basic
import Scriptlet.Value.Datum
import Scriptlet.Value.Floating
import Scriptlet.Value.Object
import Scriptlet.Value.Printer
import Scriptlet.Yaml.Cursor
import Scriptlet.Yaml.Document
import Scriptlet.Yaml.Flow
import Scriptlet.Yaml.Scalar
import Scriptlet.Yaml.Tree
import Scriptlet.Proofs.CallOrder
import Scriptlet.Proofs.Chains
import Scriptlet.Proofs.Grammar
import Scriptlet.Proofs.GrammarEquations
import Scriptlet.Proofs.Levels
import Scriptlet.Proofs.Lexemes
import Scriptlet.Proofs.LexicalGrammar
import Scriptlet.Proofs.LexicalScope
import Scriptlet.Proofs.Lexing
import Scriptlet.Proofs.NameFailures
import Scriptlet.Proofs.Numerals
import Scriptlet.Proofs.Operations
import Scriptlet.Proofs.Parsing
import Scriptlet.Proofs.Reach
import Scriptlet.Proofs.Reading
import Scriptlet.Proofs.Refusals
import Scriptlet.Proofs.RoundTrip
import Scriptlet.Proofs.Scopes
import Scriptlet.Proofs.Stages
import Scriptlet.Proofs.StateLanguages
import Scriptlet.Proofs.Steps
import Scriptlet.Proofs.Traversal
import Scriptlet.Proofs.ViablePrefixes
import Scriptlet.Proofs.WellFormed
import Scriptlet.Proofs.Layout
import Scriptlet.Proofs.Nesting
import Scriptlet.Proofs.Positions
import Scriptlet.Proofs.ReadBack
import Scriptlet.Proofs.Correspondence
import Scriptlet.Proofs.SignalLog
import Scriptlet.Proofs.StandardNatives
import Scriptlet.Proofs.Confinement
import Scriptlet.Proofs.SignalSafety
import Scriptlet.Proofs.Sessions
import Scriptlet.Proofs.Focus
import Scriptlet.Proofs.SharedTables
import Scriptlet.Proofs.Operands
import Scriptlet.Proofs.Precedence
import Scriptlet.Proofs.Drawings
import Scriptlet.Proofs.GraphRoom
import Scriptlet.Proofs.GraphText
import Scriptlet.Proofs.Renderings
import Scriptlet.Proofs.CutPoints
import Scriptlet.Proofs.ScopeEffects
import Scriptlet.Proofs.QuotedLines
import Scriptlet.Proofs.SpanNesting
import Scriptlet.Proofs.QuotedTokens
import Scriptlet.Proofs.GraphShape
import Scriptlet.Proofs.Registrations
import Scriptlet.Proofs.SettingsOutcomes
import Scriptlet.Proofs.ExtendedRegistries
import Scriptlet.Proofs.LatestRegistrations
import Scriptlet.Proofs.Conversions
import Scriptlet.Proofs.Comparisons
import Scriptlet.Proofs.Division
import Scriptlet.Proofs.DecimalTexts
import Scriptlet.Proofs.Descent
import Scriptlet.Proofs.DescentExpressions
import Scriptlet.Proofs.DescentPrograms
