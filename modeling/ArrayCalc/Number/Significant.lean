import ArrayCalc.Number.Layout
/-! Numbers of an array are shown with five significant digits: positionally for leading exponents
from -5 to 4, with an exponent otherwise, and without zeros that end a fraction. -/
namespace ArrayCalc.Number

def trimFraction (cs : List Char) : List Char :=
  if '.' ∈ cs then ((cs.reverse.dropWhile (· == '0')).dropWhile (· == '.')).reverse else cs

def fiveDigits (e : Int) (x : Float) : List Char :=
  if -5 ≤ e ∧ e < 5 then trimFraction (fixed (4 - e).toNat x)
  else
    match mantissaExponent? 4 x with
    | some (m, lead) => trimFraction m ++ 'e' :: exponentDigits false lead
    | none => (text x).toList

/- The exponent of the leading digit of `x`, as far as `log10` is exact. -/
def magnitudeExponent (log10 : Float → Float) (x : Float) : Int := (floorInt? (log10 x.abs)).getD 0

def significantBy (log10 : Float → Float) (x : Float) : String :=
  if x == 0.0 || !x.isFinite then text x
  else String.ofList (fiveDigits (magnitudeExponent log10 x) x)

def significant : Float → String := significantBy Float.log10

end ArrayCalc.Number
