/-! Character classes are given as inclusive ranges of code points in ascending order. -/
namespace ArrayCalc.Text

def inRanges : List (Nat × Nat) → Nat → Bool
  | [], _ => false
  | (low, high) :: rest, n => if n < low then false else if n ≤ high then true else inRanges rest n

end ArrayCalc.Text
