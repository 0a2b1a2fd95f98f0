import ArrayCalc.Fold
import ArrayCalc.Proofs.Outcomes
import Mathlib.Data.List.Basic
/-! Nodes that evaluate their operands from left to right and then apply a function of the values.
Operators, choices and arrays differ only in that function, so what folding and evaluation do to
them is said once. None of the functions takes the unit value. -/
namespace ArrayCalc
variable {σ : Type}

inductive Operation where
  | unary (op : UnaryOp)
  | binary (op : BinaryOp)
  | select
  | array

namespace Operation

def Takes : Operation → Nat → Prop
  | .unary _, n => n = 1
  | .binary _, n => n = 2
  | .select, n => n = 3
  | .array, _ => True

def node : Operation → List Expr → Expr
  | .unary op, [e] => .unary op e
  | .binary op, [l,r] => .binary op l r
  | .select, [c,y,n] => .select c y n
  | _, es => .array es

def kind : Operation → FoldKind
  | .unary _ => .unary
  | .binary _ => .binary
  | .select => .ternary
  | .array => .array

def apply : Operation → List Value → Except EvalError Value
  | .unary op, [a] => op.apply a
  | .binary op, [a,b] => op.apply a b
  | .select, [c,a,b] => ArrayCalc.select c a b
  | _, vs => arrayOf vs

end Operation

theorem unaryRefusesUnit (op : UnaryOp) : ∃ e, op.apply .unit = .error e := by
  cases op <;> exact ⟨_,rfl⟩

theorem binaryRefusesUnitLeft (op : BinaryOp) (b : Value) : ∃ e, op.apply .unit b = .error e := by
  rcases b with (_ | _) | (_ | _) | (_ | _) | _ <;> cases op <;> exact ⟨_,rfl⟩

theorem binaryRefusesUnitRight (op : BinaryOp) (a : Value) : ∃ e, op.apply a .unit = .error e := by
  rcases a with (_ | _) | (_ | _) | (_ | _) | _ <;> cases op <;> exact ⟨_,rfl⟩

theorem selectRefusesUnit {c a b : Value} (h : c = .unit ∨ a = .unit ∨ b = .unit) :
    ∃ e, select c a b = .error e := by
  rcases h with rfl | rfl | rfl
  · exact ⟨_,rfl⟩
  · cases c <;> exact ⟨_,rfl⟩
  · cases c <;> cases a <;> exact ⟨_,rfl⟩

theorem mapMNone {α β : Type} {f : α → Option β} {xs : List α} {x : α} (member : x ∈ xs)
    (refused : f x = none) : xs.mapM f = none := by
  induction xs with
  | nil => simp at member
  | cons head tail ih =>
    rcases List.mem_cons.mp member with rfl | later
    · simp [List.mapM_cons,refused]
    · cases f head <;> simp [List.mapM_cons,ih later]

theorem collectRefuses {α : Type} {view : Value → Option α} {vs : List Value} {v : Value}
    (member : v ∈ vs) (refused : view v = none) : collect view vs = .error .mixedArray := by
  simp only [collect,mapMNone member refused]

theorem arrayRefusesUnit {vs : List Value} (h : .unit ∈ vs) : ∃ e, arrayOf vs = .error e := by
  unfold arrayOf
  split
  · exact ⟨_,rfl⟩
  · rw [collectRefuses h rfl]; exact ⟨_,rfl⟩
  · rw [collectRefuses h rfl]; exact ⟨_,rfl⟩
  · rw [collectRefuses h rfl]; exact ⟨_,rfl⟩
  · exact ⟨_,rfl⟩

theorem Operation.refusesUnit (op : Operation) {vs : List Value} (h : .unit ∈ vs) :
    ∃ e, op.apply vs = .error e := by
  unfold Operation.apply
  split
  · rename_i op a
    cases List.mem_singleton.mp h
    exact unaryRefusesUnit op
  · rename_i op a b
    rcases List.mem_cons.mp h with rfl | later
    · exact binaryRefusesUnitLeft op b
    · cases List.mem_singleton.mp later
      exact binaryRefusesUnitRight op a
  · rename_i c a b
    refine selectRefusesUnit ?_
    simpa [eq_comm] using h
  · exact arrayRefusesUnit h

inductive Operation.Operands : Operation → List Expr → Prop where
  | unary (op e) : Operands (.unary op) [e]
  | binary (op l r) : Operands (.binary op) [l,r]
  | select (c y n) : Operands .select [c,y,n]
  | array (es) : Operands .array es

theorem Operation.operandsOf {op : Operation} {es : List Expr} (takes : op.Takes es.length) :
    op.Operands es := by
  cases op with
  | unary op =>
    obtain ⟨e,rfl⟩ := List.length_eq_one_iff.mp takes
    exact .unary op e
  | binary op =>
    obtain ⟨l,r,rfl⟩ := List.length_eq_two.mp takes
    exact .binary op l r
  | select =>
    obtain ⟨c,y,n,rfl⟩ := List.length_eq_three.mp takes
    exact .select c y n
  | array => exact .array es

@[elab_as_elim]
theorem Expr.inductNodes {motive : Expr → Prop} (literal : ∀ v, motive (.literal v))
    (empty : motive .empty) (name : ∀ n, motive (.variable n))
    (assign : ∀ n e, motive e → motive (.assign n e))
    (operation : ∀ (op : Operation) es, op.Takes es.length → (∀ e ∈ es, motive e) →
      motive (op.node es))
    (call : ∀ f es, (∀ e ∈ es, motive e) → motive (.call f es)) (e : Expr) : motive e := by
  refine @Expr.rec motive (fun es => ∀ e ∈ es, motive e) literal name
    assign ?_ ?_ ?_ ?_ call empty ?_ ?_ e
  · intro op e ih
    exact operation (.unary op) [e] rfl (by simpa using ih)
  · intro op l r left right
    exact operation (.binary op) [l,r] rfl (by simpa using ⟨left,right⟩)
  · intro c y n condition yes no
    exact operation .select [c,y,n] rfl (by simpa using ⟨condition,yes,no⟩)
  · intro es ih
    exact operation .array es trivial ih
  · simp
  · intro e es head tail
    simpa using ⟨head,tail⟩

theorem FoldCount.addZero (k : FoldCount) : k + FoldCount.zero = k := rfl

theorem FoldCount.addAssoc (i j k : FoldCount) : i + j + k = i + (j + k) := by
  change FoldCount.mk .. = FoldCount.mk ..
  simp only [FoldCount.mk.injEq]
  exact ⟨Nat.add_assoc ..,Nat.add_assoc ..,Nat.add_assoc ..,Nat.add_assoc ..,Nat.add_assoc ..,
    Nat.add_assoc ..⟩

theorem Operation.evalNode (ctx : Context σ) {op : Operation} {es : List Expr}
    (takes : op.Takes es.length) :
    (op.node es).eval ctx = evalList ctx es >>= fun vs => Action.ofExcept (op.apply vs) := by
  cases Operation.operandsOf takes
  all_goals simp only [Operation.node,Operation.apply,Expr.eval,evalList,bind_assoc,pure_bind]

theorem Operation.foldNode (ctx : Context σ) {op : Operation} {es : List Expr}
    (takes : op.Takes es.length) (s : σ) :
    (op.node es).fold ctx s = (foldList ctx es >>= fun p =>
      foldNodeIf ctx (p.1.all Expr.isLiteral) op.kind (op.node p.1) p.2) s := by
  cases Operation.operandsOf takes
  all_goals
    simp only [Operation.node,Operation.kind,Expr.fold,foldList,bind_assoc,pure_bind,List.all_cons,
      List.all_nil,Bool.and_true,FoldCount.addZero,FoldCount.addAssoc,Bool.and_assoc]

end ArrayCalc
