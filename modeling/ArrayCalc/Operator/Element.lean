import ArrayCalc.EvalError
import ArrayCalc.Value
/-! Arrays from elements and elements of arrays. An index is rounded to the nearest integer, a half
to even, and a negative one counts from the end. -/
namespace ArrayCalc

def position (length : Nat) (index : Float) : Except EvalError (Fin length) :=
  let last : Int := length - 1
  match Number.nearestInt? index with
  | none => .error (.indexNotAnInteger index last)
  | some r =>
    if Nat.pow 2 63 ≤ r.natAbs then .error (.indexNotAnInteger index last)
    else
      let i := if r < 0 then r + length else r
      if h : 0 ≤ i ∧ i < length then .ok ⟨i.toNat, by omega⟩ else .error (.indexOutOfRange i last)

def pick {α : Type} (as : List α) (index : Float) : Except EvalError α :=
  as.get <$> position as.length index

def elementAt : Value → Value → Except EvalError Value
  | .number (.array xs), .number (.scalar i) => .ofNumber <$> pick xs i
  | .text (.array ss), .number (.scalar i) => .ofText <$> pick ss i
  | .bool (.array bs), .number (.scalar i) => .ofBool <$> pick bs i
  | a, b => .error (.elementKinds a.kind b.kind)

def collect {α : Type} (view : Value → Option α) (values : List Value) :
    Except EvalError (Shaped α) :=
  match values.mapM view with
  | some as => .ok (.array as)
  | none => .error .mixedArray

def arrayOf (values : List Value) : Except EvalError Value :=
  match values with
  | [] => .error .emptyArray
  | .number (.scalar _) :: _ => .number <$> collect Value.number? values
  | .text (.scalar _) :: _ => .text <$> collect Value.text? values
  | .bool (.scalar _) :: _ => .bool <$> collect Value.bool? values
  | _ => .error .mixedArray

end ArrayCalc
