import ArrayCalc.Proofs.HonestFolding
import ArrayCalc.Proofs.Traversals
/-! One traversal folds all there is to fold. What it leaves is a settled tree: every node that is
still foldable is one whose evaluation fails. A settled tree is its own folded form, so a limit on
the number of traversals decides only how many are counted. -/
namespace ArrayCalc
variable {σ : Type}

structure Context.Honest (ctx : Context σ) : Prop where
  name : ∀ {n s}, ctx.isConstantVariable n s = .ok true → Outcome.state (ctx.resolve n s) = s
  call : ∀ {f vs s}, ctx.isConstantCall f (vs.map Value.kind) s = .ok true →
    Outcome.state (ctx.call f vs s) = s

namespace Context

theorem Honest.keeps {ctx : Context σ} (honest : ctx.Honest) (s : σ) :
    ctx.ConstantsKeep (· = s) where
  name constant kept := (honest.name constant).trans kept
  call constant kept := (honest.call constant).trans kept

theorem Honest.scoped {ctx : Context σ} (honest : ctx.Honest) : ctx.scoped.Honest where
  name {n s} constant := by
    simp only [Context.scoped,Scoped.isConstantVariable] at constant
    simp only [Context.scoped,Scoped.resolve]
    cases found : s.stored? n with
    | some v => rfl
    | none =>
      simp only [found] at constant
      rw [onBaseState,honest.name constant]
  call {f vs s} constant := by
    simp only [Context.scoped,onBaseState]
    rw [honest.call constant]

end Context

theorem Bindings.Honest.context {η : Type} {bs : Bindings η} (honest : bs.Honest) :
    bs.context.Honest where
  name constant := by
    obtain ⟨r,runs,_⟩ := constantNameSteady honest constant
    rw [runs,Action.stateOfExcept]
  call constant := by
    obtain ⟨r,runs,_⟩ := constantCallSteady honest constant
    rw [runs,Action.stateOfExcept]

inductive Expr.Settled (ctx : Context σ) (s : σ) : Expr → Prop where
  | literal (v) : Settled ctx s (.literal v)
  | empty : Settled ctx s .empty
  | name {n constant} (asked : ctx.isConstantVariable n s = .ok constant)
      (stuck : constant = true → Outcome.Fails (ctx.resolve n s)) : Settled ctx s (.variable n)
  | assign (n) {e} (value : Settled ctx s e) : Settled ctx s (.assign n e)
  | operation {op : Operation} {es} (takes : op.Takes es.length)
      (operands : ∀ e ∈ es, Settled ctx s e)
      (stuck : ∀ vs : List Value, es = vs.map Expr.literal → ∃ x, op.apply vs = .error x) :
      Settled ctx s (op.node es)
  | call {f es} (arguments : ∀ e ∈ es, Settled ctx s e)
      (stuck : ∀ vs : List Value, es = vs.map Expr.literal →
        ∃ constant, ctx.isConstantCall f (vs.map Value.kind) s = .ok constant ∧
          (constant = true → Outcome.Fails (ctx.call f vs s))) : Settled ctx s (.call f es)

section Settling
variable {ctx : Context σ} {s : σ}

theorem nodeStuck {foldable : Bool} {kind : FoldKind} {e : Expr} {k : FoldCount}
    (steady : foldable = true → Outcome.state (e.eval ctx s) = s)
    (stuck : foldable = true → Outcome.Fails (e.eval ctx s)) :
    foldNodeIf ctx foldable kind e k s = .ok (e,k) s := by
  cases foldable with
  | false => rfl
  | true =>
    obtain ⟨x,t,failed⟩ := stuck rfl
    have same := steady rfl
    rw [failed] at same
    change foldNode ctx kind e k s = .ok (e,k) s
    simp only [foldNode,failed]
    rw [show t = s from same]

theorem literalsRead (vs : List Value) : (vs.map Expr.literal).mapM Expr.literal? = some vs := by
  induction vs with
  | nil => rfl
  | cons v vs ih => simp [List.mapM_cons,Expr.literal?,ih]

theorem settledList {es : List Expr} (each : ∀ e ∈ es, e.fold ctx s = .ok (e,.zero) s) :
    foldList ctx es s = .ok (es,.zero) s := by
  induction es with
  | nil => rfl
  | cons e es ih =>
    have rest := ih fun e member => each e (List.mem_cons_of_mem _ member)
    simp only [foldList]
    rw [Action.bindOk (each e List.mem_cons_self)]
    exact Action.bindOk rest

theorem Expr.Settled.fold (honest : ctx.Honest) {e : Expr} (settled : e.Settled ctx s) :
    e.fold ctx s = .ok (e,.zero) s := by
  induction settled with
  | literal v => rfl
  | empty => rfl
  | name asked stuck =>
    simp only [Expr.fold]
    rw [Action.bindOk (Action.askOk asked)]
    apply nodeStuck
    · rintro rfl
      exact honest.name asked
    · exact stuck
  | assign n value ih =>
    simp only [Expr.fold]
    exact Action.bindOk ih
  | @operation op es takes operands stuck ih =>
    rw [Operation.foldNode ctx takes,Action.bindOk (settledList ih)]
    apply nodeStuck
    · exact literalNodeKeeps (K := (· = s)) takes rfl
    · intro literal
      obtain ⟨vs,rfl⟩ := literalsOf literal
      obtain ⟨x,refused⟩ := stuck vs rfl
      rw [evalLiteralNode ctx takes,refused]
      exact ⟨x,s,rfl⟩
  | @call f es arguments stuck ih =>
    simp only [Expr.fold]
    rw [Action.bindOk (settledList ih)]
    cases literal : es.mapM Expr.literal? with
    | none => rfl
    | some vs =>
      cases literalValues literal
      obtain ⟨constant,asked,fails⟩ := stuck vs rfl
      change (Action.ask (ctx.isConstantCall f (vs.map Value.kind)) >>= fun constant =>
        foldNodeIf ctx constant .call (.call f (vs.map Expr.literal)) .zero) s = _
      rw [Action.bindOk (Action.askOk asked)]
      apply nodeStuck
      · rintro rfl
        rw [evalLiteralCall]
        exact honest.call asked
      · intro flagged
        rw [evalLiteralCall]
        exact fails flagged

theorem nodeSettles {foldable : Bool} {kind : FoldKind} {e e' : Expr} {k k' : FoldCount} {t : σ}
    (folded : foldNodeIf ctx foldable kind e k s = .ok (e',k') t)
    (stays : (foldable = true → Outcome.Fails (e.eval ctx s)) → e.Settled ctx s) :
    e'.Settled ctx s := by
  cases foldable with
  | false =>
    cases folded
    exact stays fun flagged => absurd flagged Bool.false_ne_true
  | true =>
    change foldNode ctx kind e k s = .ok (e',k') t at folded
    unfold foldNode at folded
    cases done : e.eval ctx s with
    | ok v m =>
      rw [done] at folded
      cases folded
      exact .literal v
    | error x m =>
      rw [done] at folded
      cases folded
      exact stays fun _ => ⟨x,_,done⟩

theorem Context.Honest.foldState (honest : ctx.Honest) {e : Expr} {p : Expr × FoldCount} {t : σ}
    (folded : e.fold ctx s = .ok p t) : t = s := by
  have same := (honest.keeps s).fold e rfl
  rwa [folded] at same

theorem Context.Honest.foldListState (honest : ctx.Honest) {es : List Expr}
    {p : List Expr × FoldCount} {t : σ} (folded : foldList ctx es s = .ok p t) : t = s := by
  have same := (honest.keeps s).foldList es rfl
  rwa [folded] at same

theorem foldListSettles (honest : ctx.Honest) {es es' : List Expr} {k : FoldCount} {t : σ}
    (each : ∀ e ∈ es, ∀ {e' k t}, e.fold ctx s = .ok (e',k) t → e'.Settled ctx s)
    (folded : foldList ctx es s = .ok (es',k) t) : ∀ e ∈ es', e.Settled ctx s := by
  induction es generalizing es' k with
  | nil =>
    cases folded
    exact fun e member => absurd member List.not_mem_nil
  | cons e es ih =>
    simp only [foldList] at folded
    obtain ⟨⟨e₁,j⟩,m,first,folded⟩ := Action.bindOkInv folded
    obtain ⟨⟨es₁,i⟩,n,rest,folded⟩ := Action.bindOkInv folded
    cases folded
    cases honest.foldState first
    intro x member
    rcases List.mem_cons.mp member with rfl | later
    · exact each e List.mem_cons_self first
    · exact ih (fun e member => each e (List.mem_cons_of_mem _ member)) rest x later

theorem foldSettles (honest : ctx.Honest) (e : Expr) {e' : Expr} {k : FoldCount} {t : σ}
    (folded : e.fold ctx s = .ok (e',k) t) : e'.Settled ctx s := by
  induction e using Expr.inductNodes generalizing e' k t with
  | literal v => cases folded; exact .literal v
  | empty => cases folded; exact .empty
  | name n =>
    simp only [Expr.fold] at folded
    cases asked : ctx.isConstantVariable n s with
    | error x =>
      rw [Action.bindError (Action.askError asked)] at folded
      contradiction
    | ok constant =>
      rw [Action.bindOk (Action.askOk asked)] at folded
      exact nodeSettles folded (.name asked)
  | assign n e ih =>
    simp only [Expr.fold] at folded
    obtain ⟨p,m,value,folded⟩ := Action.bindOkInv folded
    cases folded
    exact .assign n (ih value)
  | operation op es takes ih =>
    rw [Operation.foldNode ctx takes] at folded
    obtain ⟨⟨es₁,j⟩,m,operands,folded⟩ := Action.bindOkInv folded
    cases honest.foldListState operands
    have takes' : op.Takes es₁.length := by rwa [foldListLength operands]
    apply nodeSettles folded
    intro stuck
    apply Expr.Settled.operation takes' (foldListSettles honest (fun e member => ih e member) operands)
    rintro vs rfl
    have fails := stuck (by simp [Expr.isLiteral,Expr.literal?])
    rw [evalLiteralNode ctx takes'] at fails
    cases result : op.apply vs with
    | error x => exact ⟨x,rfl⟩
    | ok v =>
      obtain ⟨x,t,failed⟩ := fails
      rw [result] at failed
      contradiction
  | call f es ih =>
    simp only [Expr.fold] at folded
    obtain ⟨⟨es₁,j⟩,m,arguments,folded⟩ := Action.bindOkInv folded
    cases honest.foldListState arguments
    have settled := foldListSettles honest (fun e member => ih e member) arguments
    cases literal : es₁.mapM Expr.literal? with
    | none =>
      simp only [literal] at folded
      cases folded
      apply Expr.Settled.call settled
      rintro vs rfl
      rw [literalsRead] at literal
      contradiction
    | some vs =>
      cases literalValues literal
      simp only [literal] at folded
      cases asked : ctx.isConstantCall f (vs.map Value.kind) s with
      | error x =>
        rw [Action.bindError (Action.askError asked)] at folded
        contradiction
      | ok constant =>
        rw [Action.bindOk (Action.askOk asked)] at folded
        apply nodeSettles folded
        intro stuck
        apply Expr.Settled.call settled
        intro ws same
        cases List.map_injective_iff.mpr (fun _ _ => Expr.literal.inj) same
        rw [evalLiteralCall] at stuck
        exact ⟨constant,asked,stuck⟩

theorem foldAgain (honest : ctx.Honest) {e e' : Expr} {k : FoldCount} {t : σ}
    (folded : e.fold ctx s = .ok (e',k) t) : e'.fold ctx s = .ok (e',.zero) s :=
  (foldSettles honest e folded).fold honest

theorem foldListAgain (honest : ctx.Honest) {es es' : List Expr} {k : FoldCount} {t : σ}
    (folded : foldList ctx es s = .ok (es',k) t) : foldList ctx es' s = .ok (es',.zero) s := by
  have settled := foldListSettles honest (fun e _ => foldSettles honest e) folded
  exact settledList fun e member => (settled e member).fold honest

end Settling

def traversals (limit : Nat) (k : FoldCount) : Nat := if k.total = 0 then 1 else min 2 limit

def traversed {α : Type} (limit : Nat) : Outcome σ (α × FoldCount) → Outcome σ (α × FoldStats)
  | .ok (a,k) s => .ok (a,⟨traversals limit k,k⟩) s
  | .error e s => .error e s

section Repeating
variable {α : Type} {pass : α → Action σ (α × FoldCount)} {s : σ}

theorem settleSettled {a : α} (settled : pass a s = .ok (a,.zero) s) (more : Nat) :
    settle pass more a s = .ok (a,⟨1,.zero⟩) s := by
  cases more with
  | zero =>
    simp only [settle]
    rw [Action.bindOk settled]
    rfl
  | succ more =>
    simp only [settle]
    rw [Action.bindOk settled]
    rfl

theorem settleOnce {a : α} (steady : ∀ {p t}, pass a s = .ok p t → t = s)
    (again : ∀ {a' k t}, pass a s = .ok (a',k) t → pass a' s = .ok (a',.zero) s) (more : Nat) :
    settle pass more a s = traversed (more + 1) (pass a s) := by
  cases first : pass a s with
  | error x t =>
    cases more with
    | zero => simp only [settle]; exact Action.bindError first
    | succ more => simp only [settle]; exact Action.bindError first
  | ok p t =>
    obtain ⟨a',k⟩ := p
    cases steady first
    cases more with
    | zero =>
      simp only [settle]
      rw [Action.bindOk first]
      have once : traversals (0 + 1) k = 1 := by unfold traversals; split <;> rfl
      simp only [traversed,once]
      rfl
    | succ more =>
      simp only [settle]
      rw [Action.bindOk first]
      by_cases none : k.total = 0
      · simp only [none,if_true,traversed,traversals]
        rfl
      · have twice : traversals (more + 1 + 1) k = 2 := by
          rw [traversals,if_neg none]
          omega
        simp only [none,if_false,traversed,twice]
        exact Action.bindOk (settleSettled (again first) more)

end Repeating

section Statements
variable {ctx : Context σ} {s : σ}

theorem foldStatementOnce (honest : ctx.Honest) (limit : Nat) (e : Expr) :
    foldStatement ctx limit e s = traversed (max 1 limit) (e.fold ctx s) := by
  have count : limit - 1 + 1 = max 1 limit := by omega
  rw [← count]
  exact settleOnce honest.foldState (foldAgain honest) (limit - 1)

theorem foldStatementsOnce (honest : ctx.Honest) (limit : Nat) (es : List Expr) :
    foldStatements ctx limit es s = traversed (max 1 limit) (foldList ctx es s) := by
  have count : limit - 1 + 1 = max 1 limit := by omega
  rw [← count]
  exact settleOnce honest.foldListState (foldListAgain honest) (limit - 1)

def gathered (ps : List (Expr × FoldStats)) : List Expr × FoldCount :=
  (ps.map Prod.fst,(ps.map fun p => p.2.folds).foldr (· + ·) .zero)

theorem mapOk {α β : Type} {a : Action σ α} {v : α} {t : σ} (f : α → β) (done : a s = .ok v t) :
    (f <$> a) s = .ok (f v) t := by
  rw [map_eq_pure_bind]
  exact Action.bindOk done

theorem mapError {α β : Type} {a : Action σ α} {x : EvalError} {t : σ} (f : α → β)
    (failed : a s = .error x t) : (f <$> a) s = .error x t := by
  rw [map_eq_pure_bind]
  exact Action.bindError failed

theorem foldEach (honest : ctx.Honest) (limit : Nat) (es : List Expr) :
    (gathered <$> es.mapM (foldStatement ctx limit)) s = foldList ctx es s := by
  induction es with
  | nil => rfl
  | cons e es ih =>
    simp only [foldList,List.mapM_cons,map_bind,map_pure]
    have head := foldStatementOnce (s := s) honest limit e
    cases first : e.fold ctx s with
    | error x t =>
      rw [first] at head
      rw [Action.bindError first,Action.bindError head]
    | ok p t =>
      obtain ⟨e',j⟩ := p
      cases honest.foldState first
      rw [first] at head
      rw [Action.bindOk first,Action.bindOk head]
      cases rest : es.mapM (foldStatement ctx limit) s with
      | error x t =>
        rw [mapError gathered rest] at ih
        rw [Action.bindError rest,Action.bindError ih.symm]
      | ok ps t =>
        rw [mapOk gathered rest] at ih
        rw [Action.bindOk rest,Action.bindOk ih.symm]
        rfl

end Statements

structure FoldedOnce (ctx : Context σ) (s : σ) : Prop where
  again : ∀ {e e' : Expr} {k t}, e.fold ctx s = .ok (e',k) t →
    t = s ∧ e'.Settled ctx s ∧ e'.fold ctx s = .ok (e',.zero) s
  anyLimit : ∀ e limit limit',
    (Prod.fst <$> foldStatement ctx limit e) s = (Prod.fst <$> foldStatement ctx limit' e) s
  idempotent : ∀ {e e' limit stats t}, foldStatement ctx limit e s = .ok (e',stats) t →
    ∀ limit', foldStatement ctx limit' e' s = .ok (e',⟨1,.zero⟩) s
  counted : ∀ {e e' limit stats t}, foldStatement ctx limit e s = .ok (e',stats) t →
    stats.iterations = if stats.folds.total = 0 then 1 else min 2 (max 1 limit)
  together : ∀ es limit, ((fun p => (p.1,p.2.folds)) <$> foldStatements ctx limit es) s =
    (gathered <$> es.mapM (foldStatement ctx limit)) s

theorem foldedOnce {ctx : Context σ} (honest : ctx.Honest) (s : σ) : FoldedOnce ctx s where
  again {e e' k t} folded := by
    exact ⟨honest.foldState folded,foldSettles honest e folded,foldAgain honest folded⟩
  anyLimit e limit limit' := by
    have one := foldStatementOnce (s := s) honest limit e
    have other := foldStatementOnce (s := s) honest limit' e
    cases folded : e.fold ctx s with
    | ok p t =>
      rw [folded] at one other
      rw [mapOk _ one,mapOk _ other]
    | error x t =>
      rw [folded] at one other
      rw [mapError _ one,mapError _ other]
  idempotent {e e' limit stats t} done limit' := by
    rw [foldStatementOnce honest] at done
    rw [foldStatementOnce honest]
    cases folded : e.fold ctx s with
    | error x m => rw [folded] at done; contradiction
    | ok p m =>
      rw [folded] at done
      cases done
      rw [foldAgain honest folded]
      rfl
  counted {e e' limit stats t} done := by
    rw [foldStatementOnce honest] at done
    cases folded : e.fold ctx s with
    | error x m => rw [folded] at done; contradiction
    | ok p m =>
      rw [folded] at done
      cases done
      rfl
  together es limit := by
    have all := foldStatementsOnce (s := s) honest limit es
    rw [foldEach honest]
    cases folded : foldList ctx es s with
    | ok p t => rw [folded] at all; rw [mapOk _ all]
    | error x t => rw [folded] at all; rw [mapError _ all]

theorem countingFoldedOnce :
    (Bindings.ofList counting).context.scoped.Honest ∧
      FoldedOnce (Bindings.ofList counting).context.scoped
        ⟨[.empty,NameMap.empty.insert "x" (.ofNumber 5.0)],⟨0,none⟩⟩ := by
  have honest := countingHonest.context.scoped
  exact ⟨honest,foldedOnce honest _⟩

end ArrayCalc
