import ArrayCalc.Proofs.FilterPasses
import Mathlib.Algebra.BigOperators.Intervals
import Mathlib.Algebra.Order.Field.Basic
import Mathlib.Algebra.Order.Field.Rat
import Mathlib.Data.List.GetD
import Mathlib.Tactic.NormNum
import Mathlib.Tactic.Ring
/-! The response in exact arithmetic. Signals, coefficients and the delay line are read as sequences
that are zero from their length on. Then every slot of the line passes on to the one before it, the
last slot included, and the outputs solve the difference equation of the filter. -/
namespace ArrayCalc.Filter

/- Numbers of an ordered field are all finite, and negligible as machine numbers are. -/
instance orderedGauge {K : Type} [Field K] [LinearOrder K] : Gauge K where
  isNegligible x := |x| < 1 / 10 ^ 8
  isFinite _ := true

theorem twoAccepted : Gauge.isNegligible (2 : ℚ) = false := decide_eq_false (by norm_num)

section Samples
variable {K : Type} [Zero K]

def sample (xs : List K) (m : Nat) : K := xs.getD m 0

@[simp] theorem sampleNil (m : Nat) : sample ([] : List K) m = 0 := rfl
@[simp] theorem sampleZero (x : K) (xs : List K) : sample (x :: xs) 0 = x := rfl
@[simp] theorem sampleSucc (x : K) (xs : List K) (m : Nat) : sample (x :: xs) (m + 1) = sample xs m := rfl

theorem sampleInside {xs : List K} {m : Nat} (inside : m < xs.length) :
    xs[m]? = some (sample xs m) := by
  simp [sample,inside]

theorem sampleBeyond {xs : List K} {m : Nat} (beyond : xs.length ≤ m) : sample xs m = 0 :=
  List.getD_eq_default _ _ beyond

theorem samplePadded (xs : List K) (n m : Nat) :
    sample (xs ++ List.replicate n 0) m = sample xs m := by
  by_cases inside : m < xs.length
  · exact List.getD_append _ _ _ _ inside
  · have beyond : xs.length ≤ m := Nat.le_of_not_lt inside
    rw [sampleBeyond beyond,sample,List.getD_append_right _ _ _ _ beyond]
    exact List.getElem?_getD_replicate_default_eq 0 n _

theorem sampleFit (n : Nat) (xs : List K) (m : Nat) :
    sample (fit n xs) m = if m < n then sample xs m else 0 := by
  rw [fit,samplePadded]
  simp only [sample,List.getD_eq_getElem?_getD,List.getElem?_take]
  split <;> rfl

theorem sampleFitAll {n : Nat} {xs : List K} (short : xs.length ≤ n) (m : Nat) :
    sample (fit n xs) m = sample xs m := by
  rw [sampleFit]
  split
  · rfl
  · exact (sampleBeyond (by omega)).symm

end Samples

section Equation
variable {K : Type} [Field K]

theorem advanceOutput (ps : List (K × K)) (held : List K) (x : K) :
    (advance ps held x).1 = sample (ps.map Prod.fst) 0 * x + sample held 0 := by
  cases ps <;> cases held <;> simp [advance]

theorem zipSlots {ps : List (K × K)} {held : List K} (fits : held.length = ps.length) (x y : K)
    (m : Nat) : sample (ps.zipWith (fun p z => p.1 * x - p.2 * y + z) held) m =
      sample (ps.map Prod.fst) m * x - sample (ps.map Prod.snd) m * y + sample held m := by
  induction ps generalizing held m with
  | nil => simp [List.length_eq_zero_iff.mp fits]
  | cons p ps ih =>
    obtain ⟨z,held,rfl⟩ := List.exists_cons_of_length_eq_add_one fits
    cases m with
    | zero => rfl
    | succ m => exact ih (by simpa using fits) m

theorem advanceSlot {ps : List (K × K)} {held : List K} (fits : held.length = ps.length) (x : K)
    (m : Nat) : sample (advance ps held x).2 m = sample (ps.map Prod.fst) (m + 1) * x -
      sample (ps.map Prod.snd) (m + 1) * (advance ps held x).1 + sample held (m + 1) := by
  have padded := samplePadded (ps.tail.zipWith
    (fun p z => p.1 * x - p.2 * (advance ps held x).1 + z) held.tail) 1 m
  refine padded.trans ((zipSlots (by simp [fits]) x _ m).trans ?_)
  cases ps <;> cases held <;> simp

def convolve (c : Nat → K) (first : Nat) (s : Nat → K) (m : Nat) : K :=
  ∑ k ∈ Finset.Icc first m, c k * s (m - k)

theorem convolveCons (c : Nat → K) {first m : Nat} (early : first ≤ m + 1) (v : K) (vs : List K) :
    convolve c first (sample (v :: vs)) (m + 1) = convolve c first (sample vs) m + c (m + 1) * v := by
  rw [convolve,Finset.sum_Icc_succ_top early,Nat.sub_self,sampleZero,convolve]
  congr 1
  refine Finset.sum_congr rfl fun k member => ?_
  have less : k ≤ m := (Finset.mem_Icc.mp member).2
  rw [Nat.succ_sub less,sampleSucc]

theorem convolveCut {c : Nat → K} {n : Nat} (zero : ∀ k, n ≤ k → c k = 0) (first : Nat) (s : Nat → K)
    (m : Nat) : convolve c first s m = ∑ k ∈ Finset.Icc first (min m (n - 1)), c k * s (m - k) := by
  refine (Finset.sum_subset (Finset.Icc_subset_Icc_right (by omega)) fun k member beyond => ?_).symm
  rw [zero k (by simp only [Finset.mem_Icc] at member beyond; omega),zero_mul]

theorem runEquation {ps : List (K × K)} {held : List K} (filled : ps ≠ [])
    (fits : held.length = ps.length) {xs : List K} {m : Nat} (inside : m < xs.length) :
    sample (run ps held xs) m = convolve (sample (ps.map Prod.fst)) 0 (sample xs) m -
      convolve (sample (ps.map Prod.snd)) 1 (sample (run ps held xs)) m + sample held m := by
  /- By induction on the signal: its first sample is gone after one step, into all slots of the line. -/
  induction xs generalizing held m with
  | nil => contradiction
  | cons x xs ih =>
    rw [runCons]
    cases m with
    | zero => simp [convolve,advanceOutput]
    | succ m =>
      have next := ih (advanceLength ps filled fits x) (m := m) (by simpa using inside)
      rw [convolveCons _ (by omega),convolveCons _ (by omega),sampleSucc,next,advanceSlot fits]
      ring

theorem sampleScaled {n : Nat} {cs : List K} (short : cs.length ≤ n) (lead : K) (k : Nat) :
    sample (scaled lead n cs) k = sample cs k / lead := by
  rw [scaled,sampleFitAll (by simpa using short),sample,← zero_div lead,List.getD_map]
  rfl

variable [Gauge K]

theorem responseSolves {b a : List K} {lead : K} (leads : a.head? = some lead)
    (accepted : Gauge.isNegligible lead = false) (start x : List K) :
    let n := max a.length b.length
    ∃ y, response b a start x = .ok y ∧ y.length = x.length ∧ ∀ m < x.length,
      sample y m = ∑ k ∈ Finset.Icc 0 (min m (n - 1)), sample b k / lead * sample x (m - k) -
        ∑ k ∈ Finset.Icc 1 (min m (n - 1)), sample a k / lead * sample y (m - k) +
        if m < n then sample start m else 0 := by
  intro n
  obtain ⟨ps,done,paired⟩ := acceptedPairs (b := b) leads accepted
  have length : ps.length = n := paired.length
  refine ⟨_,responseRuns done start x,runLength ..,fun m inside => ?_⟩
  have beyond (cs : List K) (k : Nat) (behind : n ≤ k) : sample (scaled lead n cs) k = 0 :=
    sampleBeyond (by simpa using behind)
  have given {cs : List K} (short : cs.length ≤ n) : sample (scaled lead n cs) = (sample cs · / lead) :=
    funext (sampleScaled short lead)
  rw [runEquation (pairsSome done) (fitLength ..) inside,paired.forward,paired.feedback,length,
    convolveCut (beyond b),convolveCut (beyond a),sampleFit,given (le_max_right ..),
    given (le_max_left ..)]

theorem startCutSolves : Gauge.isNegligible (2 : ℚ) = false ∧
    ∃ y, response [4,1] [2,-1,3] [1 / 2,0,0,7] [(1 : ℚ),0,5,2,1] = .ok y ∧ y.length = 5 ∧ ∀ m < 5,
      sample y m = ∑ k ∈ Finset.Icc 0 (min m 2), sample [4,1] k / 2 * sample [1,0,5,2,1] (m - k) -
        ∑ k ∈ Finset.Icc 1 (min m 2), sample [2,-1,3] k / 2 * sample y (m - k) +
        if m < 3 then sample [1 / 2,0,0,7] m else 0 :=
  ⟨twoAccepted,responseSolves (b := [4,1]) (a := [2,-1,3]) rfl twoAccepted _ _⟩

end Equation
end ArrayCalc.Filter
