import ArrayCalc.Context
/-! What a host declares: properties, and methods that may share a name. -/
namespace ArrayCalc

structure Workspace (η : Type) where
  host : η
  store : Option Store

namespace Workspace
variable {η : Type}

def stored? (w : Workspace η) (name : String) : Option Value := w.store.bind (·.get? name)

def names (w : Workspace η) : List String := w.store.elim [] NameMap.names

def reset (w : Workspace η) : Workspace η := { w with store := w.store.map fun _ => .empty }

end Workspace

inductive Parameter where
  | any
  | only (k : Kind)
  deriving DecidableEq, Repr

def Parameter.accepts : Parameter → Kind → Bool
  | .any, _ => true
  | .only k, actual => k = actual

structure Property (η : Type) where
  constant : Bool
  read : Action (Workspace η) Value

structure Method (η : Type) where
  constant : Bool
  parameters : List Parameter
  invoke : List Value → Action (Workspace η) Value

def Method.accepts {η : Type} (m : Method η) (arguments : List Kind) : Bool :=
  m.parameters.length = arguments.length &&
    (m.parameters.zip arguments).all fun (p, k) => p.accepts k

inductive Binding (η : Type) where
  | property (name : String) (p : Property η)
  | method (name : String) (m : Method η)

end ArrayCalc
