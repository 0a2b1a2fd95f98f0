import ArrayCalc.Binding
/-! Ways to declare functions whose result depends on their arguments alone. -/
namespace ArrayCalc.Functions
variable {η : Type}

def anyNumber : Parameter := .only (.scalar .number)
def anyNumbers : Parameter := .only (.array .number)

def function (name : String) (parameters : List Parameter)
    (f : List Value → Option (Except EvalError Value)) : Binding η :=
  .method name ⟨true, parameters, fun vs =>
    .ofExcept ((f vs).getD (.error (.noOverload name (vs.map Value.kind))))⟩

def constant (name : String) (x : Float) : Binding η :=
  .property name ⟨true, pure (.ofNumber x)⟩

end ArrayCalc.Functions
