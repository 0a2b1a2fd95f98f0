import ArrayCalc.Expr
import ArrayCalc.Text.Outline
/-! Expression trees as nested data. A node is a record with its sort as the only field, or the
name of its sort alone where it holds nothing. -/
namespace ArrayCalc
open Text (Outline)

def UnaryOp.outlineName : UnaryOp → String
  | .negate => "Neg"
  | .not => "Not"

def BinaryOp.outlineName : BinaryOp → String
  | .add => "Add"
  | .sub => "Sub"
  | .mul => "Mul"
  | .div => "Div"
  | .pow => "Pow"
  | .less => "Lt"
  | .lessEqual => "Le"
  | .greater => "Gt"
  | .greaterEqual => "Ge"
  | .equal => "Eq"
  | .notEqual => "Ne"
  | .and => "And"
  | .or => "Or"
  | .index => "Index"

def Number.outline : Number.Layout :=
  ⟨fun e => -5 ≤ e && e < 16, true, true, .even, some "null"⟩

def Text.Outline.tagged (tag : String) (o : Outline) : Outline := .record [(tag, o)]

namespace Value

def outlineNumber (x : Float) : Outline := .atom (Number.outline.write x)
def outlineBool (b : Bool) : Outline := .atom (boolText b)

def outline : Value → Outline
  | .number (.scalar x) => .tagged "Number" (outlineNumber x)
  | .text (.scalar s) => .tagged "Text" (.ofString s)
  | .bool (.scalar b) => .tagged "Bool" (outlineBool b)
  | .number (.array xs) => .tagged "NumberArray" (.list (xs.map outlineNumber))
  | .text (.array ss) => .tagged "TextArray" (.list (ss.map .ofString))
  | .bool (.array bs) => .tagged "BoolArray" (.list (bs.map outlineBool))
  | .unit => .ofString "Unit"

end Value

mutual

def Expr.outline : Expr → Outline
  | .literal v => .tagged "Literal" v.outline
  | .variable n => .tagged "Variable" (.ofString n)
  | .assign n e => .tagged "Assignment" (.record [("name", .ofString n), ("value", e.outline)])
  | .unary op e =>
    .tagged "Unary" (.record [("op", .ofString op.outlineName), ("operand", e.outline)])
  | .binary op l r =>
    .tagged "Binary" (.record
      [("op", .ofString op.outlineName), ("left", l.outline), ("right", r.outline)])
  | .select c y n =>
    .tagged "Ternary" (.record [("op", .ofString "Select"), ("cond", c.outline),
      ("then_branch", y.outline), ("else_branch", n.outline)])
  | .array es => .tagged "Array" (.list (outlineList es))
  | .call f es => .tagged "Call" (.record [("name", .ofString f), ("args", .list (outlineList es))])
  | .empty => .ofString "Empty"

def outlineList : List Expr → List Outline
  | [] => []
  | e :: es => e.outline :: outlineList es

end

end ArrayCalc
