import Calculator.Arithmetic
import Calculator.Binary64.Basic
import Calculator.Binary64.Rounding
import Calculator.Console
import Calculator.Decimal.Basic
import Calculator.Decimal.Layout
import Calculator.Decimal.Shortest
import Calculator.EvalError
import Calculator.Evaluate
import Calculator.Expr.Basic
import Calculator.Expr.Building
import Calculator.Expr.Canonical
import Calculator.Expr.Grammar
import Calculator.Expr.Matcher
import Calculator.Expr.Meaning
import Calculator.Expr.Misreading
import Calculator.Expr.Numbers
import Calculator.Expr.PassCount
import Calculator.Expr.Passes
import Calculator.Expr.Pushdown
import Calculator.Expr.Reduce
import Calculator.Expr.Render
import Calculator.Expr.Shape
import Calculator.Expr.Step
import Calculator.Formula
import Calculator.Literal
import Calculator.Log
import Calculator.Main
import Calculator.Operator
import Calculator.Proofs.Building
import Calculator.Proofs.Depth
import Calculator.Proofs.DigitRuns
import Calculator.Proofs.Failure
import Calculator.Proofs.Finite
import Calculator.Proofs.LiteralValue
import Calculator.Proofs.Mapping
import Calculator.Proofs.Matcher
import Calculator.Proofs.Meaning
import Calculator.Proofs.Message
import Calculator.Proofs.Misreading
import Calculator.Proofs.Nested
import Calculator.Proofs.NumberText
import Calculator.Proofs.OnePlace
import Calculator.Proofs.Pass
import Calculator.Proofs.PassNumber
import Calculator.Proofs.Precedence
import Calculator.Proofs.Readable
import Calculator.Proofs.Reading
import Calculator.Proofs.Replacement
import Calculator.Proofs.Reporting
import Calculator.Proofs.Reprinting
import Calculator.Proofs.RoundTrip
import Calculator.Proofs.Rounding
import Calculator.Proofs.Run
import Calculator.Proofs.Session
import Calculator.Proofs.Shape
import Calculator.Proofs.Shortest
import Calculator.Proofs.Spelling
import Calculator.Proofs.Substitution
import Calculator.Proofs.Trace
import Calculator.Proofs.Value
import Calculator.Proofs.Verdict
import Calculator.Proofs.Viable
import Calculator.Rational
import Calculator.Reporting
import Calculator.Session
import Calculator.Text.Lines
import Calculator.Text.Normal
import Calculator.Text.Verdict
