import ArrayCalc.Eval
import ArrayCalc.Fold.Count
/-! Constant folding. A node is replaced by its value where its operands are literals and, for a
name or a call, where the context takes it for constant. A node whose evaluation fails stays, so
the failure is left to evaluation proper. -/
namespace ArrayCalc
variable {σ α : Type}

def foldNode (ctx : Context σ) (kind : FoldKind) (e : Expr) (k : FoldCount) :
    Action σ (Expr × FoldCount) := fun s =>
  match e.eval ctx s with
  | .ok v s => .ok (.literal v, k + .of kind) s
  | .error _ s => .ok (e, k) s

def foldNodeIf (ctx : Context σ) (foldable : Bool) (kind : FoldKind) (e : Expr) (k : FoldCount) :
    Action σ (Expr × FoldCount) :=
  if foldable then foldNode ctx kind e k else pure (e, k)

mutual

def Expr.fold (ctx : Context σ) : Expr → Action σ (Expr × FoldCount)
  | .literal v => pure (.literal v, .zero)
  | .empty => pure (.empty, .zero)
  | .variable n => do
    let constant ← .ask (ctx.isConstantVariable n)
    foldNodeIf ctx constant .variable (.variable n) .zero
  | .assign n e => do
    let (e, k) ← e.fold ctx
    return (.assign n e, k)
  | .unary op e => do
    let (e, k) ← e.fold ctx
    foldNodeIf ctx e.isLiteral .unary (.unary op e) k
  | .binary op l r => do
    let (l, j) ← l.fold ctx
    let (r, k) ← r.fold ctx
    foldNodeIf ctx (l.isLiteral && r.isLiteral) .binary (.binary op l r) (j + k)
  | .select c y n => do
    let (c, i) ← c.fold ctx
    let (y, j) ← y.fold ctx
    let (n, k) ← n.fold ctx
    foldNodeIf ctx (c.isLiteral && y.isLiteral && n.isLiteral) .ternary (.select c y n) (i + j + k)
  | .array es => do
    let (es, k) ← foldList ctx es
    foldNodeIf ctx (es.all Expr.isLiteral) .array (.array es) k
  | .call f es => do
    let (es, k) ← foldList ctx es
    match es.mapM Expr.literal? with
    | some vs =>
      let constant ← .ask (ctx.isConstantCall f (vs.map Value.kind))
      foldNodeIf ctx constant .call (.call f es) k
    | none => return (.call f es, k)

def foldList (ctx : Context σ) : List Expr → Action σ (List Expr × FoldCount)
  | [] => pure ([], .zero)
  | e :: es => do
    let (e, j) ← e.fold ctx
    let (es, k) ← foldList ctx es
    return (e :: es, j + k)

end

def settle (pass : α → Action σ (α × FoldCount)) : Nat → α → Action σ (α × FoldStats)
  | 0, a => do
    let (a, k) ← pass a
    return (a, ⟨1, k⟩)
  | more + 1, a => do
    let (a, k) ← pass a
    if k.total = 0 then return (a, ⟨1, k⟩)
    let (a, stats) ← settle pass more a
    return (a, ⟨1, k⟩ + stats)

def traversalLimit : Nat := 100

def foldStatement (ctx : Context σ) (limit : Nat) (e : Expr) : Action σ (Expr × FoldStats) :=
  settle (Expr.fold ctx) (limit - 1) e

/- Folds statements together, all against the state as it stands. -/
def foldStatements (ctx : Context σ) (limit : Nat) (es : List Expr) :
    Action σ (List Expr × FoldStats) :=
  settle (foldList ctx) (limit - 1) es

end ArrayCalc
