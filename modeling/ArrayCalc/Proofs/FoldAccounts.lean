import ArrayCalc.Proofs.HonestFolding
import ArrayCalc.Proofs.Traversals
/-! The books of folding. Every fold takes one node of its kind out of the tree, and nothing else does:
what a tree has more of than its folded form is what was counted, kind by kind, however often the tree
was traversed and whatever was tried in vain. -/
namespace ArrayCalc

inductive NodeKind where
  | literal
  | empty
  | assignment
  | foldable (kind : FoldKind)
  deriving DecidableEq, Repr

mutual

def Expr.nodes : Expr → List NodeKind
  | .literal _ => [.literal]
  | .empty => [.empty]
  | .variable _ => [.foldable .variable]
  | .assign _ e => .assignment :: e.nodes
  | .unary _ e => .foldable .unary :: e.nodes
  | .binary _ l r => .foldable .binary :: (l.nodes ++ r.nodes)
  | .select c y n => .foldable .ternary :: (c.nodes ++ (y.nodes ++ n.nodes))
  | .array es => .foldable .array :: nodesList es
  | .call _ es => .foldable .call :: nodesList es

def nodesList : List Expr → List NodeKind
  | [] => []
  | e :: es => e.nodes ++ nodesList es

end

theorem nodesOperation {op : Operation} {es : List Expr} (takes : op.Takes es.length) :
    (op.node es).nodes = .foldable op.kind :: nodesList es := by
  cases Operation.operandsOf takes <;>
    simp [Operation.node,Operation.kind,Expr.nodes,nodesList]

theorem nodesLiterals (vs : List Value) :
    nodesList (vs.map Expr.literal) = List.replicate vs.length .literal := by
  induction vs with
  | nil => rfl
  | cons v vs ih => rw [List.map_cons,nodesList,ih]; rfl

namespace FoldCount

theorem getAdd (j k : FoldCount) (kind : FoldKind) : (j + k).get kind = j.get kind + k.get kind := by
  cases kind <;> rfl

theorem getZero (kind : FoldKind) : zero.get kind = 0 := by cases kind <;> rfl

theorem getOf (kind other : FoldKind) : (of kind).get other = if other = kind then 1 else 0 := by
  cases kind <;> cases other <;> rfl

end FoldCount

structure Balanced (k : FoldCount) (before after : List NodeKind) : Prop where
  folds : ∀ kind, before.count (.foldable kind) = after.count (.foldable kind) + k.get kind
  assignments : before.count .assignment = after.count .assignment
  empties : before.count .empty = after.count .empty

namespace Balanced
variable {j k : FoldCount} {before after before' after' : List NodeKind}

theorem same (ns : List NodeKind) : Balanced .zero ns ns where
  folds kind := by rw [FoldCount.getZero,Nat.add_zero]
  assignments := rfl
  empties := rfl

theorem append (first : Balanced j before after) (second : Balanced k before' after') :
    Balanced (j + k) (before ++ before') (after ++ after') where
  folds kind := by
    rw [List.count_append,List.count_append,first.folds,second.folds,FoldCount.getAdd]
    omega
  assignments := by rw [List.count_append,List.count_append,first.assignments,second.assignments]
  empties := by rw [List.count_append,List.count_append,first.empties,second.empties]

theorem cons (n : NodeKind) (h : Balanced k before after) : Balanced k (n :: before) (n :: after) where
  folds kind := by
    rw [List.count_cons,List.count_cons,h.folds]
    omega
  assignments := by rw [List.count_cons,List.count_cons,h.assignments]
  empties := by rw [List.count_cons,List.count_cons,h.empties]

theorem trans {between : List NodeKind} (first : Balanced j before between)
    (second : Balanced k between after) : Balanced (j + k) before after where
  folds kind := by
    rw [first.folds,second.folds,FoldCount.getAdd]
    omega
  assignments := first.assignments.trans second.assignments
  empties := first.empties.trans second.empties

theorem replaced {n : Nat} (kind : FoldKind)
    (h : Balanced k before (List.replicate n .literal)) :
    Balanced (k + .of kind) (.foldable kind :: before) [.literal] where
  folds other := by
    have below := h.folds other
    rw [List.count_replicate] at below
    rw [List.count_cons,below,FoldCount.getAdd,FoldCount.getOf]
    by_cases same : other = kind
    · simp [same]
    · simp [same,Ne.symm same]
  assignments := by
    have below := h.assignments
    rw [List.count_replicate] at below
    simpa using below
  empties := by
    have below := h.empties
    rw [List.count_replicate] at below
    simpa using below

end Balanced

def unfolded (ns : List NodeKind) : Nat := ns.countP (· ≠ .literal)

theorem unfoldedCons (n : NodeKind) (ns : List NodeKind) :
    unfolded (n :: ns) = unfolded ns + if n = .literal then 0 else 1 := by
  by_cases literal : n = .literal <;> simp [unfolded,literal]

theorem unfoldedKinds (ns : List NodeKind) : unfolded ns = ns.count .assignment + ns.count .empty +
    (ns.count (.foldable .variable) + ns.count (.foldable .unary) + ns.count (.foldable .binary) +
      ns.count (.foldable .ternary) + ns.count (.foldable .array) + ns.count (.foldable .call)) := by
  induction ns with
  | nil => rfl
  | cons n ns ih =>
    rw [unfoldedCons,ih]
    simp only [List.count_cons]
    rcases n with _ | _ | _ | (_ | _ | _ | _ | _ | _)
    · simp
    all_goals
      simp
      omega

theorem Balanced.total {k : FoldCount} {before after : List NodeKind} (h : Balanced k before after) :
    unfolded before = unfolded after + k.total := by
  rw [unfoldedKinds,unfoldedKinds,h.assignments,h.empties]
  simp only [h.folds,FoldCount.get,FoldCount.total]
  omega

section Traversing
variable {σ : Type} {ctx : Context σ}

theorem foldNodeIfCases {foldable : Bool} {kind : FoldKind} {e e' : Expr} {k k' : FoldCount} {s t : σ}
    (folded : foldNodeIf ctx foldable kind e k s = .ok (e',k') t) :
    (e' = e ∧ k' = k) ∨ foldable = true ∧ ∃ v, e' = .literal v ∧ k' = k + .of kind := by
  cases foldable with
  | false => cases folded; exact .inl ⟨rfl,rfl⟩
  | true =>
    change foldNode ctx kind e k s = .ok (e',k') t at folded
    unfold foldNode at folded
    cases done : e.eval ctx s with
    | ok v m => rw [done] at folded; cases folded; exact .inr ⟨rfl,v,rfl,rfl⟩
    | error x m => rw [done] at folded; cases folded; exact .inl ⟨rfl,rfl⟩

theorem nodeBalances {foldable : Bool} {kind : FoldKind} {e e' : Expr} {es : List Expr}
    {before : List NodeKind} {k k' : FoldCount} {s t : σ}
    (below : Balanced k before (nodesList es)) (node : e.nodes = .foldable kind :: nodesList es)
    (literal : foldable = true → ∃ vs : List Value, es = vs.map Expr.literal)
    (folded : foldNodeIf ctx foldable kind e k s = .ok (e',k') t) :
    Balanced k' (.foldable kind :: before) e'.nodes := by
  obtain ⟨rfl,rfl⟩ | ⟨flagged,v,rfl,rfl⟩ := foldNodeIfCases folded
  · rw [node]
    exact below.cons _
  · obtain ⟨vs,rfl⟩ := literal flagged
    rw [nodesLiterals] at below
    exact below.replaced kind

theorem listBalances {es es' : List Expr} {k : FoldCount} {s t : σ}
    (each : ∀ e ∈ es, ∀ {e' k s t}, e.fold ctx s = .ok (e',k) t → Balanced k e.nodes e'.nodes)
    (folded : foldList ctx es s = .ok (es',k) t) : Balanced k (nodesList es) (nodesList es') := by
  induction es generalizing es' k s with
  | nil => cases folded; exact .same _
  | cons e es ih =>
    simp only [foldList] at folded
    obtain ⟨⟨e₁,j⟩,m,first,folded⟩ := Action.bindOkInv folded
    obtain ⟨⟨es₁,i⟩,n,rest,folded⟩ := Action.bindOkInv folded
    cases folded
    have head := each e List.mem_cons_self first
    have tail := ih (fun e member => each e (List.mem_cons_of_mem _ member)) rest
    exact head.append tail

theorem foldBalances (e : Expr) {e' : Expr} {k : FoldCount} {s t : σ}
    (folded : e.fold ctx s = .ok (e',k) t) : Balanced k e.nodes e'.nodes := by
  induction e using Expr.inductNodes generalizing e' k s t with
  | literal v => cases folded; exact .same _
  | empty => cases folded; exact .same _
  | name n =>
    simp only [Expr.fold] at folded
    obtain ⟨constant,m,asked,folded⟩ := Action.bindOkInv folded
    have nothing : Balanced .zero [] (nodesList []) := .same []
    exact nodeBalances nothing rfl (fun _ => ⟨[],rfl⟩) folded
  | assign n e ih =>
    simp only [Expr.fold] at folded
    obtain ⟨p,m,value,folded⟩ := Action.bindOkInv folded
    cases folded
    exact (ih value).cons .assignment
  | operation op es takes ih =>
    rw [Operation.foldNode ctx takes] at folded
    obtain ⟨⟨es₁,j⟩,m,operands,folded⟩ := Action.bindOkInv folded
    have takes' : op.Takes es₁.length := by rwa [foldListLength operands]
    rw [nodesOperation takes]
    exact nodeBalances (listBalances (fun e member => ih e member) operands) (nodesOperation takes')
      literalsOf folded
  | call f es ih =>
    simp only [Expr.fold] at folded
    obtain ⟨⟨es₁,j⟩,m,arguments,folded⟩ := Action.bindOkInv folded
    have below := listBalances (fun e member => ih e member) arguments
    cases literal : es₁.mapM Expr.literal? with
    | none =>
      simp only [literal] at folded
      cases folded
      exact below.cons _
    | some vs =>
      simp only [literal] at folded
      obtain ⟨constant,n,asked,folded⟩ := Action.bindOkInv folded
      exact nodeBalances below rfl (fun _ => ⟨vs,literalValues literal⟩) folded

end Traversing

structure Accounted (stats : FoldStats) (before after : List NodeKind) : Prop
    extends Balanced stats.folds before after where
  total : unfolded before = unfolded after + stats.folds.total

theorem foldingAccounted {σ : Type} (ctx : Context σ) (limit : Nat) (s : σ) :
    (∀ e e' stats t, foldStatement ctx limit e s = .ok (e',stats) t →
      Accounted stats e.nodes e'.nodes) ∧
    ∀ es es' stats t, foldStatements ctx limit es s = .ok (es',stats) t →
      Accounted stats (nodesList es) (nodesList es') := by
  constructor
  · intro e e' stats t folded
    have balanced := settleTotals (R := fun k e e' => Balanced k (Expr.nodes e) e'.nodes) .trans
      (fun {e _ _ _ _} folded => foldBalances e folded) (limit - 1) folded
    exact ⟨balanced,balanced.total⟩
  · intro es es' stats t folded
    have balanced := settleTotals (R := fun k es es' => Balanced k (nodesList es) (nodesList es'))
      .trans (listBalances fun e _ => foldBalances e) (limit - 1) folded
    exact ⟨balanced,balanced.total⟩

def tickFolded : Expr :=
  .assign "a" (.assign "b" (.binary .add (.call "tick" []) (.literal (.ofNumber 10.0))))

def fiveStored : Workspace Nat := ⟨0,some (NameMap.empty.insert "x" (.ofNumber 5.0))⟩

theorem tickStatementAccounted :
    foldStatement (Bindings.ofList counting).context traversalLimit tickStatement fiveStored =
      .ok (tickFolded,⟨2,⟨2,0,1,0,0,0⟩⟩) fiveStored ∧
    Accounted ⟨2,⟨2,0,1,0,0,0⟩⟩ tickStatement.nodes tickFolded.nodes := by
  refine ⟨rfl,?_⟩
  exact (foldingAccounted (Bindings.ofList counting).context traversalLimit fiveStored).1
    tickStatement tickFolded _ fiveStored rfl

end ArrayCalc
