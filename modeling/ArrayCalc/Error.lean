import ArrayCalc.EvalError
import ArrayCalc.Expr.Reader
/-! Every way in which work on a source text fails. Only errors of the text itself have a place. -/
namespace ArrayCalc

inductive Error where
  | parse (e : ParseError)
  | statementCount (found : Nat)
  | eval (e : EvalError)

namespace Error

def message : Error → String
  | .parse e => e.message
  | .statementCount found => s!"expected exactly one statement, found {found}"
  | .eval e => e.message

def span? : Error → Option Span
  | .parse e => some e.span
  | _ => none

end Error

def parseOne (source : String) : Except Error Expr := do
  match ← (parse source).mapError .parse with
  | [e] => return e
  | es => throw (.statementCount es.length)

end ArrayCalc
