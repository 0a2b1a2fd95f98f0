import ArrayCalc.Context
import ArrayCalc.Error
import ArrayCalc.Operator.Apply
/-! Evaluation from left to right. Every operand is evaluated, also those of `&&`, `||` and both
branches of a choice. -/
namespace ArrayCalc
variable {σ : Type}

mutual

def Expr.eval (ctx : Context σ) : Expr → Action σ Value
  | .literal v => pure v
  | .empty => pure .unit
  | .variable n => ctx.resolve n
  | .assign n e => do
    let v ← e.eval ctx
    ctx.assign n v
    return v
  | .unary op e => do
    let v ← e.eval ctx
    .ofExcept (op.apply v)
  | .binary op l r => do
    let a ← l.eval ctx
    let b ← r.eval ctx
    .ofExcept (op.apply a b)
  | .select c y n => do
    let t ← c.eval ctx
    let a ← y.eval ctx
    let b ← n.eval ctx
    .ofExcept (ArrayCalc.select t a b)
  | .array es => do
    let vs ← evalList ctx es
    .ofExcept (arrayOf vs)
  | .call f es => do
    let vs ← evalList ctx es
    ctx.call f vs

def evalList (ctx : Context σ) : List Expr → Action σ (List Value)
  | [] => pure []
  | e :: es => do
    let v ← e.eval ctx
    let vs ← evalList ctx es
    return v :: vs

end

def evalStatements (ctx : Context σ) (es : List Expr) : Action σ Value :=
  es.foldlM (fun _ e => e.eval ctx) .unit

def evaluate (ctx : Context σ) (source : String) : EStateM Error σ Value :=
  match parse source with
  | .ok es => (evalStatements ctx es).adaptExcept .eval
  | .error e => throw (.parse e)

end ArrayCalc
