import ArrayCalc.Fold
/-! Which names an expression may resolve, call and assign. A statement of the language assigns only
at its root: the chain `a = b = e` stands around an expression that assigns nothing. -/
namespace ArrayCalc

structure Usage where
  reads : String → Prop
  calls : String → Prop
  writes : String → Prop

namespace Usage

def anything : Usage := ⟨fun _ => True,fun _ => True,fun _ => True⟩

def readOnly (u : Usage) : Usage := { u with writes := fun _ => False }

end Usage

mutual

def Expr.Within (u : Usage) : Expr → Prop
  | .literal _ => True
  | .empty => True
  | .variable n => u.reads n
  | .assign n e => u.writes n ∧ e.Within u
  | .unary _ e => e.Within u
  | .binary _ l r => l.Within u ∧ r.Within u
  | .select c y n => c.Within u ∧ y.Within u ∧ n.Within u
  | .array es => WithinList u es
  | .call f es => u.calls f ∧ WithinList u es

def WithinList (u : Usage) : List Expr → Prop
  | [] => True
  | e :: es => e.Within u ∧ WithinList u es

end

theorem withinListIff {u : Usage} {es : List Expr} : WithinList u es ↔ ∀ e ∈ es, e.Within u := by
  induction es with
  | nil => simp [WithinList]
  | cons e es ih => simp [WithinList,ih]

inductive Expr.RootAssigned (u : Usage) : Expr → Prop where
  | body {e} (within : e.Within u) : RootAssigned u e
  | assign (n) {e} (value : RootAssigned u e) : RootAssigned u (.assign n e)

end ArrayCalc
