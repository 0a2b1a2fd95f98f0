import ArrayCalc.Proofs.Traversals
/-! What holds of all values. If the operators make only values of a kind from values of that kind,
and so does the context, then every value an evaluation gives, every literal a traversal puts in the
place of a node and every variable is of that kind. -/
namespace ArrayCalc
variable {σ α β : Type}

namespace Outcome

def Yields (K : σ → Prop) (P : α → Prop) : Outcome σ α → Prop
  | .ok a s => P a ∧ K s
  | .error _ s => K s

variable {K : σ → Prop} {P : α → Prop} {Q : β → Prop} {s : σ}

theorem Yields.kept {r : Outcome σ α} (h : Yields K P r) : K r.state := by
  cases r with
  | ok a s => exact h.2
  | error e s => exact h

theorem Yields.bind {a : Action σ α} {k : α → Action σ β} (first : Yields K P (a s))
    (next : ∀ v t, P v → K t → Yields K Q (k v t)) : Yields K Q ((a >>= k) s) := by
  cases done : a s with
  | ok v t =>
    rw [done] at first
    rw [Action.bindOk done]
    exact next v t first.1 first.2
  | error e t =>
    rw [done] at first
    rw [Action.bindError done]
    exact first

theorem Yields.ofExcept {r : Except EvalError α} (holds : ∀ a, r = .ok a → P a) (kept : K s) :
    Yields K P (Action.ofExcept r s) := by
  cases r with
  | ok a => exact ⟨holds a rfl,kept⟩
  | error e => exact kept

theorem Yields.ask {q : σ → Except EvalError α} (kept : K s) :
    Yields K (fun _ => True) (Action.ask q s) := by
  cases asked : q s with
  | ok a => rw [Action.askOk asked]; exact ⟨trivial,kept⟩
  | error e => rw [Action.askError asked]; exact kept

end Outcome

mutual

def Expr.Literals (V : Value → Prop) : Expr → Prop
  | .literal v => V v
  | .empty => True
  | .variable _ => True
  | .assign _ e => e.Literals V
  | .unary _ e => e.Literals V
  | .binary _ l r => l.Literals V ∧ r.Literals V
  | .select c y n => c.Literals V ∧ y.Literals V ∧ n.Literals V
  | .array es => LiteralsList V es
  | .call _ es => LiteralsList V es

def LiteralsList (V : Value → Prop) : List Expr → Prop
  | [] => True
  | e :: es => e.Literals V ∧ LiteralsList V es

end

theorem literalsListIff {V : Value → Prop} {es : List Expr} :
    LiteralsList V es ↔ ∀ e ∈ es, e.Literals V := by
  induction es with
  | nil => simp [LiteralsList]
  | cons e es ih => simp [LiteralsList,ih]

theorem literalsNode {V : Value → Prop} {op : Operation} {es : List Expr}
    (takes : op.Takes es.length) : (op.node es).Literals V ↔ ∀ e ∈ es, e.Literals V := by
  cases Operation.operandsOf takes
  all_goals simp [Operation.node,Expr.Literals,literalsListIff]

structure Context.Maintains (ctx : Context σ) (K : σ → Prop) (V : Value → Prop) : Prop where
  unit : V .unit
  apply : ∀ {op : Operation} {vs v}, (∀ v ∈ vs, V v) → op.apply vs = .ok v → V v
  resolve : ∀ {n s}, K s → Outcome.Yields K V (ctx.resolve n s)
  assign : ∀ {n v s}, V v → K s → Outcome.Yields K (fun _ => True) (ctx.assign n v s)
  call : ∀ {f vs s}, (∀ v ∈ vs, V v) → K s → Outcome.Yields K V (ctx.call f vs s)

namespace Context.Maintains
variable {ctx : Context σ} {K : σ → Prop} {V : Value → Prop} {s : σ}

theorem list {es : List Expr}
    (each : ∀ e ∈ es, ∀ {s}, K s → Outcome.Yields K V (e.eval ctx s)) (kept : K s) :
    Outcome.Yields K (fun vs => ∀ v ∈ vs, V v) (evalList ctx es s) := by
  induction es generalizing s with
  | nil => exact ⟨fun v member => absurd member List.not_mem_nil,kept⟩
  | cons e es ih =>
    simp only [evalList]
    apply (each e List.mem_cons_self kept).bind
    intro v t holds kept
    apply (ih (fun e member => each e (List.mem_cons_of_mem _ member)) kept).bind
    exact fun vs t all kept => ⟨List.forall_mem_cons.mpr ⟨holds,all⟩,kept⟩

theorem eval (M : ctx.Maintains K V) {e : Expr} (literals : e.Literals V) (kept : K s) :
    Outcome.Yields K V (e.eval ctx s) := by
  induction e using Expr.inductNodes generalizing s with
  | literal v => exact ⟨literals,kept⟩
  | empty => exact ⟨M.unit,kept⟩
  | name n => exact M.resolve kept
  | assign n e ih =>
    simp only [Expr.eval]
    apply (ih literals kept).bind
    intro v t holds kept
    exact (M.assign holds kept).bind fun _ t _ kept => ⟨holds,kept⟩
  | operation op es takes ih =>
    rw [Operation.evalNode ctx takes]
    have each := (literalsNode takes).mp literals
    apply (list (fun e member s => ih e member (each e member)) kept).bind
    exact fun vs t all kept => .ofExcept (fun v applied => M.apply all applied) kept
  | call f es ih =>
    simp only [Expr.eval]
    have each := literalsListIff.mp literals
    apply (list (fun e member s => ih e member (each e member)) kept).bind
    exact fun vs t all kept => M.call all kept

theorem foldNodeIf (M : ctx.Maintains K V) {foldable : Bool} {kind : FoldKind} {e : Expr}
    {k : FoldCount} (literals : e.Literals V) (kept : K s) :
    Outcome.Yields K (fun p => p.1.Literals V) (foldNodeIf ctx foldable kind e k s) := by
  cases foldable with
  | false => exact ⟨literals,kept⟩
  | true =>
    change Outcome.Yields K _ (foldNode ctx kind e k s)
    have done := M.eval literals kept
    unfold foldNode
    generalize e.eval ctx s = r at done
    cases r with
    | ok v t => exact ⟨done.1,done.2⟩
    | error x t => exact ⟨literals,done⟩

theorem foldEach {es : List Expr}
    (each : ∀ e ∈ es, ∀ {s}, K s → Outcome.Yields K (fun p => p.1.Literals V) (e.fold ctx s))
    (kept : K s) :
    Outcome.Yields K (fun p => ∀ e ∈ p.1, e.Literals V) (foldList ctx es s) := by
  induction es generalizing s with
  | nil => exact ⟨fun e member => absurd member List.not_mem_nil,kept⟩
  | cons e es ih =>
    simp only [foldList]
    apply (each e List.mem_cons_self kept).bind
    intro p t holds kept
    apply (ih (fun e member => each e (List.mem_cons_of_mem _ member)) kept).bind
    exact fun q t all kept => ⟨List.forall_mem_cons.mpr ⟨holds,all⟩,kept⟩

theorem fold (M : ctx.Maintains K V) {e : Expr} (literals : e.Literals V) (kept : K s) :
    Outcome.Yields K (fun p => p.1.Literals V) (e.fold ctx s) := by
  induction e using Expr.inductNodes generalizing s with
  | literal v => exact ⟨literals,kept⟩
  | empty => exact ⟨trivial,kept⟩
  | name n =>
    simp only [Expr.fold]
    exact (Outcome.Yields.ask kept).bind fun constant t _ kept => M.foldNodeIf trivial kept
  | assign n e ih =>
    simp only [Expr.fold]
    exact (ih literals kept).bind fun p t holds kept => ⟨holds,kept⟩
  | operation op es takes ih =>
    have each := (literalsNode takes).mp literals
    have operands := foldEach (fun e member s => ih e member (each e member)) kept
    rw [Operation.foldNode ctx takes]
    cases folded : foldList ctx es s with
    | error x t => rw [folded] at operands; rw [Action.bindError folded]; exact operands
    | ok p t =>
      rw [folded] at operands
      rw [Action.bindOk folded]
      have takes' : op.Takes p.1.length := by rwa [foldListLength folded]
      exact M.foldNodeIf ((literalsNode takes').mpr operands.1) operands.2
  | call f es ih =>
    simp only [Expr.fold]
    have each := literalsListIff.mp literals
    apply (foldEach (fun e member s => ih e member (each e member)) kept).bind
    intro p t all kept
    have stays : (Expr.call f p.1).Literals V := literalsListIff.mpr all
    cases p.1.mapM Expr.literal? with
    | none => exact ⟨stays,kept⟩
    | some vs =>
      exact (Outcome.Yields.ask kept).bind fun constant t _ kept => M.foldNodeIf stays kept

theorem settle {pass : α → Action σ (α × FoldCount)} {P : α → Prop}
    (each : ∀ {a s}, P a → K s → Outcome.Yields K (fun p => P p.1) (pass a s)) (more : Nat) {a : α}
    (holds : P a) (kept : K s) : Outcome.Yields K (fun p => P p.1) (settle pass more a s) := by
  induction more generalizing a s with
  | zero =>
    simp only [ArrayCalc.settle]
    exact (each holds kept).bind fun p t holds kept => ⟨holds,kept⟩
  | succ more ih =>
    simp only [ArrayCalc.settle]
    apply (each holds kept).bind
    intro p t holds kept
    split
    · exact ⟨holds,kept⟩
    · exact (ih holds kept).bind fun q t holds kept => ⟨holds,kept⟩

theorem foldStatement (M : ctx.Maintains K V) (limit : Nat) {e : Expr} (literals : e.Literals V)
    (kept : K s) : Outcome.Yields K (fun p => p.1.Literals V) (foldStatement ctx limit e s) :=
  settle (P := Expr.Literals V) (fun literals kept => M.fold literals kept) (limit - 1) literals kept

end Context.Maintains
end ArrayCalc
