import ArrayCalc.Bindings
import ArrayCalc.Fold
import ArrayCalc.Functions.Arrays
import ArrayCalc.Functions.Elementary
import ArrayCalc.Functions.Filtering
import ArrayCalc.Text.Blank
/-! A calculator session. It keeps the user's variables, the last result among them, and folds each
statement before evaluating it, unless told not to. -/
namespace ArrayCalc

def Functions.library {η : Type} : List (Binding η) := elementary ++ filtering ++ arrays

structure Session where
  folding : Bool
  store : Store

namespace Session

def new : Session := ⟨true, .empty⟩

def answer : String := "ans"

def bindings : Bindings Unit := .ofList Functions.library

def context : Context (Workspace Unit) := bindings.context

/- A statement, folded first if wanted; one that cannot be folded is evaluated as it is. -/
def evalStatement (folding : Bool) (e : Expr) : Action (Workspace Unit) Value := fun w =>
  if folding then
    match foldStatement context traversalLimit e w with
    | .ok (folded, _) w => folded.eval context w
    | .error _ w => e.eval context w
  else e.eval context w

def evalLine (folding : Bool) (es : List Expr) : Action (Workspace Unit) Value := do
  let v ← es.foldlM (fun _ e => evalStatement folding e) .unit
  unless v.isUnit do context.assign answer v
  return v

def evaluate (s : Session) (input : String) : Except Error Value × Session :=
  match parse (Text.trim input) with
  | .error e => (.error (.parse e), s)
  | .ok es =>
    match evalLine s.folding es ⟨(), some s.store⟩ with
    | .ok v w => (.ok v, { s with store := w.store.getD .empty })
    | .error e w => (.error (.eval e), { s with store := w.store.getD .empty })

def reset (s : Session) : Session := { s with store := .empty }

end Session
end ArrayCalc
