import ArrayCalc.Functions.Signature
/-! Functions that make and measure arrays, and the one that forgets all variables. -/
namespace ArrayCalc.Functions
variable {η : Type}

def spaced (start stop : Float) (n : Nat) : List Float :=
  let step := (stop - start) / Float.ofNat n
  (List.range n).map (fun i => start + step * Float.ofNat i) ++ [stop]

def evenlySpaced (start stop count : Float) : Except EvalError Value :=
  match Number.floorInt? count with
  | some n =>
    if 1 ≤ n ∧ n ≤ 100000000 then .ok (.ofNumbers (spaced start stop (n.toNat - 1)))
    else .error (.spacingCount (Number.whole .down count))
  | none => .error (.spacingCount count)

/- Not-a-number is in neither range and becomes the first slot. -/
def slotOf (length : Nat) (index : Float) : Except EvalError Nat :=
  let i := Number.whole .nearest index
  if i < 0.0 ∨ Number.atLeast length i then .error .elementOutOfRange else .ok i.toUInt64.toNat

def elementOf (xs : List Float) (index : Float) : Except EvalError Value := do
  let slot ← slotOf xs.length index
  match xs[slot]? with
  | some x => return .ofNumber x
  | none => throw (.outOfBounds xs.length slot)

def lengthOf (v : Value) : Except EvalError Value :=
  match v.length? with
  | some n => .ok (.ofNumber (Float.ofNat n))
  | none => .error (.lengthOfScalar v.kind)

def arrays : List (Binding η) := [
  function "linspace" [anyNumber, anyNumber, anyNumber] fun
    | [.number (.scalar start), .number (.scalar stop), .number (.scalar count)] =>
      some (evenlySpaced start stop count)
    | _ => none,
  function "element" [anyNumbers, anyNumber] fun
    | [.number (.array xs), .number (.scalar i)] => some (elementOf xs i)
    | _ => none,
  function "len" [.any] fun
    | [v] => some (lengthOf v)
    | _ => none,
  .method "clear" ⟨false, [], fun _ => do
    modify Workspace.reset
    return .unit⟩]

end ArrayCalc.Functions
