import ArrayCalc.Number.Rounding
/-! Decimals of binary64 numbers. `shortest` gives the fewest digits that read back as the same
number and, of those, the nearest; `rounded` and `scaled` cut the exact value at a given place. -/
namespace ArrayCalc.Number

structure Decimal where
  coefficient : Nat
  exponent : Int
  deriving DecidableEq, Repr

inductive Tie where
  | upper
  | even
  deriving DecidableEq, Repr

/-- The numbers that round to `mantissa * 2 ^ exponent`, as fractions over one denominator. The
ends belong to the interval when the mantissa is even. -/
structure Interval where
  low : Nat
  value : Nat
  high : Nat
  den : Nat
  closed : Bool
  deriving DecidableEq, Repr

/- In quarters of the last place; below a power of two the neighbour is half as far. -/
def interval (mantissa : Nat) (exponent : Int) : Interval :=
  let below := if mantissa = Nat.pow 2 52 ∧ exponent ≠ -1074 then 1 else 2
  let unit := fraction 1 (exponent - 2)
  ⟨(4 * mantissa - below) * unit.1, 4 * mantissa * unit.1, (4 * mantissa + 2) * unit.1, unit.2,
    mantissa % 2 = 0⟩

def Interval.inUnits (i : Interval) (place : Int) : Interval :=
  let up := Nat.pow 10 (-place).toNat
  ⟨i.low * up, i.value * up, i.high * up, i.den * Nat.pow 10 place.toNat, i.closed⟩

def Interval.holds (i : Interval) (n : Nat) : Bool :=
  if i.closed then i.low ≤ n * i.den && n * i.den ≤ i.high
  else i.low < n * i.den && n * i.den < i.high

def Interval.nearest? (i : Interval) (tie : Tie) : Option Nat :=
  let n := i.value / i.den
  match i.holds n, i.holds (n + 1) with
  | false, false => none
  | true, false => some n
  | false, true => some (n + 1)
  | true, true =>
    match compare (2 * (i.value % i.den)) i.den, tie with
    | .lt, _ => some n
    | .gt, _ | .eq, .upper => some (n + 1)
    | .eq, .even => some (n + n % 2)

def Interval.search (i : Interval) (tie : Tie) : Nat → Int → Decimal
  | 0, place => ⟨(i.inUnits place).value / (i.inUnits place).den, place⟩
  | steps + 1, place =>
    match (i.inUnits place).nearest? tie with
    | some n => ⟨n, place⟩
    | none => i.search tie steps (place - 1)

def leadingPlace (mantissa : Nat) (exponent : Int) : Int :=
  (mantissa.log2 + 1 + exponent) * 30103 / 100000 + 1

/- The fewest digits that read back; seventeen always do. -/
def shortest (tie : Tie) (mantissa : Nat) (exponent : Int) : Decimal :=
  (interval mantissa exponent).search tie 20 (leadingPlace mantissa exponent)

def digitCount (n : Nat) : Nat := (Nat.toDigits 10 n).length

def decimalExponent (num den : Nat) : Int :=
  if den ≤ num then (digitCount (num / den) : Int) - 1
  else -(digitCount ((den + num - 1) / num - 1) : Int)

def scaled (num den : Nat) (place : Int) : Nat :=
  roundDiv (num * Nat.pow 10 (-place).toNat) (den * Nat.pow 10 place.toNat)

end ArrayCalc.Number
