import ArrayCalc.Operator
import ArrayCalc.Operator.Element
/-! What the operators do to values. Each is a function of elements, applied through shapes. -/
namespace ArrayCalc
variable {α β γ δ : Type}

def tolerance : Float := 1e-9

def near (x y : Float) : Bool := (x - y).abs ≤ tolerance

def UnaryOp.apply : UnaryOp → Value → Except EvalError Value
  | .negate, .number v => .ok (.number (v.map (-·)))
  | .not, .bool v => .ok (.bool (v.map (!·)))
  | _, v => .error (.unaryKind v.kind)

def combine (make : Shaped γ → Value) (f : α → β → γ) (a : Shaped α) (b : Shaped β) :
    Except EvalError Value :=
  match a.zipWith f b with
  | some r => .ok (make r)
  | none => .error .binaryLengths

def onNumbers (f : Float → Float → Float) : Value → Value → Except EvalError Value
  | .number a, .number b => combine .number f a b
  | a, b => .error (.binaryKinds a.kind b.kind)

def compareNumbers (f : Float → Float → Bool) : Value → Value → Except EvalError Value
  | .number a, .number b => combine .bool f a b
  | a, b => .error (.binaryKinds a.kind b.kind)

def onBools (f : Bool → Bool → Bool) : Value → Value → Except EvalError Value
  | .bool a, .bool b => combine .bool f a b
  | a, b => .error (.binaryKinds a.kind b.kind)

def addValues : Value → Value → Except EvalError Value
  | .number a, .number b => combine .number (· + ·) a b
  | .text a, .text b => combine .text (· ++ ·) a b
  | .text (.scalar s), .number (.scalar x) => .ok (.ofText (s ++ Number.text x))
  | .number (.scalar x), .text (.scalar s) => .ok (.ofText (Number.text x ++ s))
  | a, b => .error (.binaryKinds a.kind b.kind)

def equalValues (negated : Bool) : Value → Value → Except EvalError Value
  | .bool a, .bool b => combine .bool (fun x y => (x == y) != negated) a b
  | .number a, .number b => combine .bool (fun x y => near x y != negated) a b
  | a, b => .error (.binaryKinds a.kind b.kind)

def BinaryOp.apply : BinaryOp → Value → Value → Except EvalError Value
  | .add => addValues
  | .sub => onNumbers (· - ·)
  | .mul => onNumbers (· * ·)
  | .div => onNumbers (· / ·)
  | .pow => onNumbers Float.pow
  | .less => compareNumbers fun x y => x < y
  | .lessEqual => compareNumbers fun x y => x ≤ y
  | .greater => compareNumbers fun x y => y < x
  | .greaterEqual => compareNumbers fun x y => y ≤ x
  | .equal => equalValues false
  | .notEqual => equalValues true
  | .and => onBools (· && ·)
  | .or => onBools (· || ·)
  | .index => elementAt

def combine3 (make : Shaped δ → Value) (f : α → β → γ → δ) (a : Shaped α) (b : Shaped β)
    (c : Shaped γ) : Except EvalError Value :=
  match Shaped.zipWith3 f a b c with
  | some r => .ok (make r)
  | none => .error .ternaryLengths

def chooseShaped (make : Shaped α → Value) (c : Shaped Bool) (a b : Shaped α) :
    Except EvalError Value :=
  combine3 make (fun t x y => if t then x else y) c a b

def select : Value → Value → Value → Except EvalError Value
  | .bool c, .number a, .number b => chooseShaped .number c a b
  | .bool c, .text a, .text b => chooseShaped .text c a b
  | .bool c, .bool a, .bool b => chooseShaped .bool c a b
  | c, a, b => .error (.ternaryKinds c.kind a.kind b.kind)

end ArrayCalc
