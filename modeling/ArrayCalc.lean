import ArrayCalc.Binding
import ArrayCalc.Bindings
import ArrayCalc.Command
import ArrayCalc.Context
import ArrayCalc.Error
import ArrayCalc.Eval
import ArrayCalc.EvalError
import ArrayCalc.Expr
import ArrayCalc.Expr.Outline
import ArrayCalc.Expr.Reader
import ArrayCalc.Filter.Design
import ArrayCalc.Filter.Fault
import ArrayCalc.Filter.Response
import ArrayCalc.Filter.ZeroPhase
import ArrayCalc.Fold
import ArrayCalc.Fold.Count
import ArrayCalc.Functions.Arrays
import ArrayCalc.Functions.Elementary
import ArrayCalc.Functions.Filtering
import ArrayCalc.Functions.Signature
import ArrayCalc.Main
import ArrayCalc.NameMap
import ArrayCalc.Number.Decimal
import ArrayCalc.Number.Layout
import ArrayCalc.Number.Rounding
import ArrayCalc.Number.Significant
import ArrayCalc.Operator
import ArrayCalc.Operator.Apply
import ArrayCalc.Operator.Element
import ArrayCalc.Prompt
import ArrayCalc.Proofs.FoldedStatements
import ArrayCalc.Proofs.Folding
import ArrayCalc.Proofs.Declarations
import ArrayCalc.Proofs.Invocations
import ArrayCalc.Proofs.Operations
import ArrayCalc.Proofs.Outcomes
import ArrayCalc.Proofs.Usage
import ArrayCalc.Scope
import ArrayCalc.Session
import ArrayCalc.Span
import ArrayCalc.Text.Blank
import ArrayCalc.Text.Digit
import ArrayCalc.Text.Letter
import ArrayCalc.Text.Outline
import ArrayCalc.Text.Ranges
import ArrayCalc.Token
import ArrayCalc.Token.Lexeme
import ArrayCalc.Token.Listing
import ArrayCalc.Token.Numeral
import ArrayCalc.Token.Quoted
import ArrayCalc.Value
import ArrayCalc.Value.Kind
import ArrayCalc.Value.Shaped
import ArrayCalc.Proofs.HonestFolding
import ArrayCalc.Proofs.Grammar
import ArrayCalc.Proofs.GrammarSound
import ArrayCalc.Proofs.GrammarComplete
import ArrayCalc.Proofs.EarliestError
import ArrayCalc.Proofs.LibraryFunctions
import ArrayCalc.Proofs.ParsedStatements
import ArrayCalc.Proofs.UnfoldedSession
import ArrayCalc.Proofs.Tracking
import ArrayCalc.Proofs.Traversals
import ArrayCalc.Proofs.SettledTrees
import ArrayCalc.Proofs.Requests
import ArrayCalc.Proofs.Overlay
import ArrayCalc.Proofs.FlatScopes
import ArrayCalc.Proofs.OperatorBounds
import ArrayCalc.Proofs.FilterBounds
import ArrayCalc.Proofs.FilledArrays
import ArrayCalc.Proofs.LibraryBounds
import ArrayCalc.Proofs.ValueInvariants
import ArrayCalc.Proofs.SessionArrays
import ArrayCalc.Proofs.ClosedFolding
import ArrayCalc.Proofs.Relexing
import ArrayCalc.Proofs.Batches
import ArrayCalc.Proofs.Printing
import ArrayCalc.Proofs.FailedStatements
import ArrayCalc.Proofs.ProgramFolding
import ArrayCalc.Proofs.Broadcasting
import ArrayCalc.Proofs.PointwiseOperators
import ArrayCalc.Proofs.DifferenceEquation
import ArrayCalc.Proofs.ExactPasses
import ArrayCalc.Proofs.LengthRules
import ArrayCalc.Proofs.SymmetricFilters
import ArrayCalc.Proofs.DeclarationOrder
import ArrayCalc.Proofs.FoldAccounts
import ArrayCalc.Proofs.QuotedTexts
import ArrayCalc.Proofs.NumeralTexts
import ArrayCalc.Proofs.ExactValues
import ArrayCalc.Proofs.ElementAccess
import ArrayCalc.Proofs.DecimalTexts
import ArrayCalc.Proofs.ToleratedEquality
import ArrayCalc.Proofs.SignificantDigits
import ArrayCalc.Proofs.NearestNumbers
import ArrayCalc.Proofs.DecimalNumbers
import ArrayCalc.Proofs.WholeNumbers
