/-! Whole parts of binary64 numbers, by integer arithmetic on sign, mantissa and exponent. A
finite number is `mantissa * 2 ^ exponent`; nothing here rounds except where a rule says so. -/
namespace ArrayCalc.Number
open Float.Model (UnpackedFloat)
open Float.Model.UnpackedFloat (Sign)

def roundDiv (num den : Nat) : Nat :=
  let q := num / den
  match compare (2 * (num % den)) den with
  | .lt => q
  | .eq => q + q % 2
  | .gt => q + 1

def fraction (mantissa : Nat) (exponent : Int) : Nat × Nat :=
  if 0 ≤ exponent then (mantissa * Nat.pow 2 exponent.toNat, 1)
  else (mantissa, Nat.pow 2 (-exponent).toNat)

inductive Direction where
  | nearest
  | down
  | up
  deriving DecidableEq, Repr

def Direction.magnitude (d : Direction) (s : Sign) (num den : Nat) : Nat :=
  match d, s with
  | .nearest, _ => roundDiv num den
  | .down, .positive | .up, .negative => num / den
  | .down, .negative | .up, .positive => (num + den - 1) / den

def signed (s : Sign) (n : Nat) : Float :=
  match s with
  | .positive => Float.ofNat n
  | .negative => -Float.ofNat n

def whole (d : Direction) (x : Float) : Float :=
  match x.toModel.unpack with
  | .finite s m e _ => let (num, den) := fraction m e; signed s (d.magnitude s num den)
  | _ => x

def whole? (d : Direction) (x : Float) : Option Int :=
  match x.toModel.unpack with
  | .finite s m e _ => let (num, den) := fraction m e; some (s.apply (d.magnitude s num den))
  | .zero _ => some 0
  | _ => none

def atLeast (n : Nat) (x : Float) : Bool :=
  match x.toModel.unpack with
  | .finite s m e _ => let (num, den) := fraction m e; decide ((n * den : Nat) ≤ s.apply num)
  | .zero _ => n == 0
  | .infinity s => s == .positive
  | .notANumber => false

def nearestInt? : Float → Option Int := whole? .nearest
def floorInt? : Float → Option Int := whole? .down

def remainder (x y : Float) : Float :=
  match x.toModel.unpack, y.toModel.unpack with
  | .finite s m e _, .finite _ k f _ =>
    let low := min e f
    let r := (m * Nat.pow 2 (e - low).toNat) % (k * Nat.pow 2 (f - low).toNat)
    .ofModel (.pack (.normalize .binary64 (s.apply r) low s))
  | .zero _, .finite .. | .zero _, .infinity _ | .finite .., .infinity _ => x
  | _, _ => 0.0 / 0.0

/- The larger operand, or the other one where one is not a number. Zeros of either sign are equal,
and of equal operands the second is taken. -/
def larger (x y : Float) : Float := if x.isNaN then y else if y.isNaN then x else if y < x then x else y

def smaller (x y : Float) : Float := if x.isNaN then y else if y.isNaN then x else if x < y then x else y

end ArrayCalc.Number
