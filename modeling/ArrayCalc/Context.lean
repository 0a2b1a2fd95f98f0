import ArrayCalc.EvalError
import ArrayCalc.NameMap
import ArrayCalc.Value
/-! What an expression meets when it is evaluated: names to resolve, variables to assign, functions
to call. A context acts on a state of its own choice; a failed action keeps the effects it had. -/
namespace ArrayCalc

abbrev Store := NameMap Value

abbrev Action (σ α : Type) := EStateM EvalError σ α

namespace Action
variable {σ α : Type}

def ofExcept : Except EvalError α → Action σ α
  | .ok a => pure a
  | .error e => throw e

def ask (q : σ → Except EvalError α) : Action σ α := fun s =>
  match q s with
  | .ok a => .ok a s
  | .error e => .error e s

end Action

structure Context (σ : Type) where
  resolve : String → Action σ Value
  assign : String → Value → Action σ Unit
  call : String → List Value → Action σ Value
  /-- Whether resolving the name always gives the same value, without effects. -/
  isConstantVariable : String → σ → Except EvalError Bool
  /-- Whether a call with arguments of these kinds depends on them alone, without effects. -/
  isConstantCall : String → List Kind → σ → Except EvalError Bool

namespace Context
variable {σ : Type}

def empty : Context σ where
  resolve n := throw (.unknownName n)
  assign _ _ := throw .readOnly
  call f vs := throw (.noOverload f (vs.map Value.kind))
  isConstantVariable n _ := .error (.unknownVariable n)
  isConstantCall f ks _ := .error (.noOverload f ks)

def closed : Context σ :=
  { empty with isConstantVariable := fun _ _ => .ok false, isConstantCall := fun _ _ _ => .ok false }

end Context
end ArrayCalc
