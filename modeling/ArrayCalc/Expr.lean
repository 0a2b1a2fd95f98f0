import ArrayCalc.Operator
import ArrayCalc.Value
/-! Expression trees. A statement is one tree; assignments and the empty statement are trees too. -/
namespace ArrayCalc

inductive Expr where
  | literal (v : Value)
  | variable (name : String)
  | assign (name : String) (value : Expr)
  | unary (op : UnaryOp) (operand : Expr)
  | binary (op : BinaryOp) (left right : Expr)
  | select (condition yes no : Expr)
  | array (items : List Expr)
  | call (name : String) (arguments : List Expr)
  | empty

namespace Expr

def literal? : Expr → Option Value
  | .literal v => some v
  | _ => none

def isLiteral (e : Expr) : Bool := e.literal?.isSome

end Expr
end ArrayCalc
