import ArrayCalc.Filter.Response
/-! Zero-phase filtering: forward, then backward over the output. The signal is first extended at
both ends by an odd reflection, and both passes start as if the signal had been constant before. -/
namespace ArrayCalc.Filter
variable {α : Type} [Zero α] [Add α] [Sub α] [Mul α] [Div α] [Neg α] [Gauge α]

/- From left to right; an empty sum is the negative zero. -/
def total (xs : List α) : α := xs.foldl (· + ·) (-0)

def tailSums (xs : List α) : List α := xs.foldr (fun x sums => (sums.headD 0 + x) :: sums) []

/- The delay line under which a constant one is already in its steady state. -/
def seed (ps : List (α × α)) : List α :=
  let gain := total (ps.map Prod.fst) / total (ps.map Prod.snd)
  if Gauge.isFinite gain then tailSums (ps.tail.map fun p => p.1 - gain * p.2)
  else List.replicate (ps.length - 1) 0

def reflect (n : Nat) (x : List α) : List α :=
  let first := x.headD 0
  let last := x.getLastD 0
  ((x.drop 1).take n).reverse.map (first + first - ·) ++ x ++
    ((x.drop (x.length - 1 - n)).take n).reverse.map (last + last - ·)

def zeroPhase (b a x : List α) : Except Fault (List α) := do
  let ps ← coefficientPairs b a
  let n := 3 * ps.length
  if x.length ≤ n then throw .signalTooShort
  let (b, a) := ps.unzip
  let start := seed ps
  let extended := reflect n x
  let forward ← response b a (start.map (· * extended.headD 0)) extended
  let backward ← response b a (start.map (· * forward.getLastD 0)) forward.reverse
  return (backward.reverse.drop n).take x.length

end ArrayCalc.Filter
