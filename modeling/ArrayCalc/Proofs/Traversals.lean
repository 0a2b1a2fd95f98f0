import ArrayCalc.Proofs.Folding
/-! What a traversal does to the state. Of a context it runs only what that context takes for
constant, so whatever all of that leaves alone, a traversal leaves alone, and so do repeated ones. -/
namespace ArrayCalc
variable {σ : Type}

structure Context.ConstantsKeep (ctx : Context σ) (K : σ → Prop) : Prop where
  name : ∀ {n s}, ctx.isConstantVariable n s = .ok true → K s → K (Outcome.state (ctx.resolve n s))
  call : ∀ {f vs s}, ctx.isConstantCall f (vs.map Value.kind) s = .ok true → K s →
    K (Outcome.state (ctx.call f vs s))

section Frame
variable {ctx : Context σ} {K : σ → Prop}

theorem foldNodeState (kind : FoldKind) (e : Expr) (k : FoldCount) (s : σ) :
    Outcome.state (foldNode ctx kind e k s) = Outcome.state (e.eval ctx s) := by
  unfold foldNode
  cases e.eval ctx s <;> rfl

theorem foldNodeIfKeeps {foldable : Bool} {kind : FoldKind} {e : Expr} {k : FoldCount} {s : σ}
    (kept : K s) (runs : foldable = true → K (Outcome.state (e.eval ctx s))) :
    K (Outcome.state (foldNodeIf ctx foldable kind e k s)) := by
  cases foldable with
  | false => exact kept
  | true =>
    change K (Outcome.state (foldNode ctx kind e k s))
    rw [foldNodeState]
    exact runs rfl

theorem foldListKeeps {es : List Expr}
    (each : ∀ e ∈ es, ∀ s, K s → K (Outcome.state (e.fold ctx s))) {s : σ} (kept : K s) :
    K (Outcome.state (foldList ctx es s)) := by
  induction es generalizing s with
  | nil => exact kept
  | cons e es ih =>
    simp only [foldList]
    apply thenKeeps (each e List.mem_cons_self s kept)
    intro p t left
    apply thenKeeps (ih (fun e member => each e (List.mem_cons_of_mem _ member)) left)
    exact fun _ _ left => left

theorem literalNodeKeeps {op : Operation} {es : List Expr} (takes : op.Takes es.length) {s : σ}
    (kept : K s) (literal : es.all Expr.isLiteral = true) :
    K (Outcome.state ((op.node es).eval ctx s)) := by
  obtain ⟨vs,rfl⟩ := literalsOf literal
  rw [evalLiteralNode ctx takes,Action.stateOfExcept]
  exact kept

theorem foldListLength {es es' : List Expr} {k : FoldCount} {s t : σ}
    (folded : foldList ctx es s = .ok (es',k) t) : es'.length = es.length := by
  induction es generalizing es' k s with
  | nil => cases folded; rfl
  | cons e es ih =>
    simp only [foldList] at folded
    obtain ⟨p,m,first,folded⟩ := Action.bindOkInv folded
    obtain ⟨q,n,rest,folded⟩ := Action.bindOkInv folded
    cases folded
    simp only [List.length_cons,ih rest]

theorem Context.ConstantsKeep.fold (quiet : ctx.ConstantsKeep K) (e : Expr) {s : σ} (kept : K s) :
    K (Outcome.state (e.fold ctx s)) := by
  induction e using Expr.inductNodes generalizing s with
  | literal v => exact kept
  | empty => exact kept
  | name n =>
    simp only [Expr.fold]
    cases asked : ctx.isConstantVariable n s with
    | error x => rw [Action.bindError (Action.askError asked)]; exact kept
    | ok constant =>
      rw [Action.bindOk (Action.askOk asked)]
      apply foldNodeIfKeeps kept
      intro flagged
      exact quiet.name (flagged ▸ asked) kept
  | assign n e ih =>
    simp only [Expr.fold]
    exact thenKeeps (ih kept) fun _ _ left => left
  | operation op es takes ih =>
    rw [Operation.foldNode ctx takes]
    have operands := foldListKeeps (fun e member s => ih e member) kept
    cases folded : foldList ctx es s with
    | error x t => rw [folded] at operands; rw [Action.bindError folded]; exact operands
    | ok p t =>
      rw [folded] at operands
      rw [Action.bindOk folded]
      have takes' : op.Takes p.1.length := by rwa [foldListLength folded]
      exact foldNodeIfKeeps operands (literalNodeKeeps takes' operands)
  | call f es ih =>
    simp only [Expr.fold]
    apply thenKeeps (foldListKeeps (fun e member s => ih e member) kept)
    intro p t left
    obtain ⟨es',k⟩ := p
    cases literal : es'.mapM Expr.literal? with
    | none => exact left
    | some vs =>
      cases literalValues literal
      change K (Outcome.state ((Action.ask (ctx.isConstantCall f (vs.map Value.kind)) >>=
        fun constant => foldNodeIf ctx constant .call (.call f (vs.map Expr.literal)) k) t))
      cases asked : ctx.isConstantCall f (vs.map Value.kind) t with
      | error x => rw [Action.bindError (Action.askError asked)]; exact left
      | ok constant =>
        rw [Action.bindOk (Action.askOk asked)]
        apply foldNodeIfKeeps left
        intro flagged
        rw [evalLiteralCall]
        exact quiet.call (flagged ▸ asked) left

theorem Context.ConstantsKeep.foldList (quiet : ctx.ConstantsKeep K) (es : List Expr) {s : σ}
    (kept : K s) : K (Outcome.state (foldList ctx es s)) :=
  foldListKeeps (fun e _ _ kept => quiet.fold e kept) kept

theorem settleKeeps {α : Type} {pass : α → Action σ (α × FoldCount)}
    (each : ∀ a s, K s → K (Outcome.state (pass a s))) (more : Nat) (a : α) {s : σ} (kept : K s) :
    K (Outcome.state (settle pass more a s)) := by
  induction more generalizing a s with
  | zero =>
    simp only [settle]
    exact thenKeeps (each a s kept) fun _ _ left => left
  | succ more ih =>
    simp only [settle]
    apply thenKeeps (each a s kept)
    intro p t left
    split
    · exact left
    · exact thenKeeps (ih p.1 left) fun _ _ left => left

/- What every traversal does to its tree, with what it has counted, all of them together do with the
sum. -/
theorem settleTotals {α : Type} {pass : α → Action σ (α × FoldCount)} {R : FoldCount → α → α → Prop}
    (trans : ∀ {j k a b c}, R j a b → R k b c → R (j + k) a c)
    (each : ∀ {a a' k s t}, pass a s = .ok (a',k) t → R k a a') (more : Nat) {a a' : α}
    {stats : FoldStats} {s t : σ} (settled : settle pass more a s = .ok (a',stats) t) :
    R stats.folds a a' := by
  induction more generalizing a s stats with
  | zero =>
    simp only [settle] at settled
    obtain ⟨p,m,first,done⟩ := Action.bindOkInv settled
    cases done
    exact each first
  | succ more ih =>
    simp only [settle] at settled
    obtain ⟨p,m,first,done⟩ := Action.bindOkInv settled
    split at done
    · cases done
      exact each first
    · obtain ⟨q,n,rest,done⟩ := Action.bindOkInv done
      cases done
      exact trans (each first) (ih rest)

theorem Context.ConstantsKeep.foldStatement (quiet : ctx.ConstantsKeep K) (limit : Nat) (e : Expr)
    {s : σ} (kept : K s) : K (Outcome.state (foldStatement ctx limit e s)) :=
  settleKeeps (fun e _ kept => quiet.fold e kept) (limit - 1) e kept

theorem Context.ConstantsKeep.foldStatements (quiet : ctx.ConstantsKeep K) (limit : Nat)
    (es : List Expr) {s : σ} (kept : K s) : K (Outcome.state (foldStatements ctx limit es s)) :=
  settleKeeps (fun es _ kept => quiet.foldList es kept) (limit - 1) es kept

end Frame
end ArrayCalc
