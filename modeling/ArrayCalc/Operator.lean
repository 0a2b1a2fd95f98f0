/-! The operators of the language, how they are written and how tightly the infix ones bind. -/
namespace ArrayCalc

inductive UnaryOp where
  | negate
  | not
  deriving DecidableEq, Repr

inductive BinaryOp where
  | add | sub | mul | div | pow
  | less | lessEqual | greater | greaterEqual | equal | notEqual
  | and | or
  | index
  deriving DecidableEq, Repr

def UnaryOp.symbol : UnaryOp → String
  | .negate => "-"
  | .not => "!"

namespace BinaryOp

def symbol : BinaryOp → String
  | .add => "+"
  | .sub => "-"
  | .mul => "*"
  | .div => "/"
  | .pow => "^"
  | .less => "<"
  | .lessEqual => "<="
  | .greater => ">"
  | .greaterEqual => ">="
  | .equal => "=="
  | .notEqual => "!="
  | .and => "&&"
  | .or => "||"
  | .index => "[]"

/- How tightly the operator binds; comparisons of order bind looser than equality. -/
def tier : BinaryOp → Nat
  | .or => 1
  | .and => 2
  | .less | .lessEqual | .greater | .greaterEqual => 3
  | .equal | .notEqual => 4
  | .add | .sub => 5
  | .mul | .div => 6
  | .pow | .index => 8

end BinaryOp
end ArrayCalc
