import ArrayCalc.Filter.Design
import ArrayCalc.Functions.Signature
import ArrayCalc.Operator.Apply
/-! Constants and elementary functions, applied to every element of a number array. -/
namespace ArrayCalc.Functions
variable {η : Type}

def mapNumbers (f : Float → Float) : Value → Except EvalError Value
  | .number v => .ok (.number (v.map f))
  | v => .error (.unaryKind v.kind)

def ofOne (name : String) (f : Float → Float) : Binding η :=
  function name [.any] fun
    | [a] => some (mapNumbers f a)
    | _ => none

def ofTwo (name : String) (f : Float → Float → Float) : Binding η :=
  function name [.any, .any] fun
    | [a, b] => some (onNumbers f a b)
    | _ => none

def euler : Float := 2.71828182845904523536028747135266250

def radians (x : Float) : Float := x * (Filter.pi / 180.0)
def degrees (x : Float) : Float := x * 57.2957795130823208767981548141051703

def signOf (x : Float) : Float :=
  if x == 0.0 then 0.0 else if x.isNaN then x else if x < 0.0 then -1.0 else 1.0

def logBase : Binding η :=
  function "log" [.any, anyNumber] fun
    | [a, .number (.scalar base)] => some (mapNumbers (fun x => x.log / base.log) a)
    | _ => none

def elementary : List (Binding η) := [
  constant "pi" Filter.pi,
  constant "e" euler,
  ofOne "exp" Float.exp,
  ofOne "log" Float.log,
  logBase,
  ofOne "log10" Float.log10,
  ofOne "sqrt" Float.sqrt,
  ofOne "abs" Float.abs,
  ofOne "sin" Float.sin,
  ofOne "sind" fun x => (radians x).sin,
  ofOne "cos" Float.cos,
  ofOne "cosd" fun x => (radians x).cos,
  ofOne "tan" Float.tan,
  ofOne "tand" fun x => (radians x).tan,
  ofOne "asin" Float.asin,
  ofOne "asind" fun x => degrees x.asin,
  ofOne "acos" Float.acos,
  ofOne "acosd" fun x => degrees x.acos,
  ofOne "atan" Float.atan,
  ofOne "atand" fun x => degrees x.atan,
  ofTwo "atan2" Float.atan2,
  ofTwo "atan2d" fun y x => degrees (y.atan2 x),
  ofOne "sinh" Float.sinh,
  ofOne "cosh" Float.cosh,
  ofOne "tanh" Float.tanh,
  ofTwo "mod" Number.remainder,
  ofOne "round" (Number.whole .nearest),
  ofOne "floor" (Number.whole .down),
  ofOne "ceil" (Number.whole .up),
  ofOne "sign" signOf,
  ofTwo "max" Number.larger,
  ofTwo "min" Number.smaller,
  ofTwo "absmax" fun x y => if x.abs > y.abs then x else y]

end ArrayCalc.Functions
