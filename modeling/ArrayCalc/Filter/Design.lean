import ArrayCalc.Filter.ZeroPhase
import ArrayCalc.Number.Rounding
/-! Filters by design: a sinc under a Hamming window, its spectral inversions, and the half order
that a signal of a given length allows for zero-phase filtering. -/
namespace ArrayCalc.Filter

def pi : Float := 3.14159265358979323846264338327950288

def hamming (taps : Nat) : List Float :=
  if taps = 1 then [1.0]
  else
    let m := Float.ofNat (taps - 1)
    (List.range taps).map fun k => 0.54 - 0.46 * (2.0 * pi * Float.ofNat k / m).cos

def sinc (t : Float) : Float := if t == 0.0 then 1.0 else (pi * t).sin / (pi * t)

def unitImpulse (half : Nat) : List Float :=
  List.replicate half 0.0 ++ 1.0 :: List.replicate half 0.0

def unitSum (xs : List Float) : List Float :=
  let s := total xs
  if s == 0.0 then xs else xs.map (· / s)

def lowPass (cutoff rate : Float) (half : Nat) : List Float :=
  let nu := 2.0 * cutoff / rate
  unitSum ((hamming (2 * half + 1)).mapIdx fun k w =>
    nu * sinc (nu * (Float.ofNat k - Float.ofNat half)) * w)

def scaledLowPass (cutoff rate : Float) (half : Nat) (gain : Float) :
    Except Fault (List Float) :=
  if gain > 0.0 && gain.isFinite then .ok ((lowPass cutoff rate half).map (· * gain))
  else .error (.gainNotPositive gain)

def highPass (cutoff rate : Float) (half : Nat) : List Float :=
  (unitImpulse half).zipWith (· - ·) (lowPass cutoff rate half)

def bandStop (low high rate : Float) (half : Nat) : List Float :=
  (lowPass low rate half).zipWith (· + ·) (highPass high rate half)

def bandPass (low high rate : Float) (half : Nat) : List Float :=
  (unitImpulse half).zipWith (· - ·) (bandStop low high rate half)

def halfOrderLimit : Nat := 250

def halfOrderFor (length : Nat) : Except Fault Nat :=
  match min ((length - 4) / 6) halfOrderLimit with
  | 0 => .error .signalTooShort
  | half => .ok half

def orderOf (order : Float) : Except Fault Nat :=
  match Number.nearestInt? order with
  | some n =>
    if 0 ≤ n ∧ n ≤ 1000000 then .ok n.toNat else .error (.orderOutOfRange (Number.whole .nearest order))
  | none => .error (.orderOutOfRange order)

end ArrayCalc.Filter
