import ArrayCalc.Filter.Fault
/-! Recursive filters. The response is computed with a delay line: slot `k` holds what the samples
so far contribute to the output `k` steps ahead. All of it is plain arithmetic and can be read
over any numbers that have a notion of negligible and finite. -/
namespace ArrayCalc.Filter

class Gauge (α : Type) where
  isNegligible : α → Bool
  isFinite : α → Bool

instance : Gauge Float where
  isNegligible x := x.abs < 1e-8
  isFinite := Float.isFinite

section
variable {α : Type} [Zero α]

def fit (n : Nat) (xs : List α) : List α := xs.take n ++ List.replicate (n - xs.length) 0

variable [Add α] [Sub α] [Mul α] [Div α] [Gauge α]

def coefficientPairs (b a : List α) : Except Fault (List (α × α)) :=
  match a with
  | [] => .error .noFeedback
  | lead :: _ =>
    if Gauge.isNegligible lead then .error .leadingFeedbackZero
    else
      let n := max a.length b.length
      .ok ((fit n (b.map (· / lead))).zip (fit n (a.map (· / lead))))

def advance (ps : List (α × α)) (line : List α) (x : α) : α × List α :=
  let y := (ps.headD (0, 0)).1 * x + line.headD 0
  (y, ps.tail.zipWith (fun p z => p.1 * x - p.2 * y + z) line.tail ++ [0])

def run (ps : List (α × α)) (line : List α) (xs : List α) : List α :=
  (xs.foldl (fun (ys, line) x => let (y, next) := advance ps line x; (y :: ys, next))
    ([], line)).1.reverse

def response (b a start x : List α) : Except Fault (List α) := do
  let ps ← coefficientPairs b a
  return run ps (fit ps.length start) x

end
end ArrayCalc.Filter
