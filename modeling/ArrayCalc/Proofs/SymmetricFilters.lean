import ArrayCalc.Proofs.ExactPasses
import Mathlib.Algebra.BigOperators.Ring.Finset
import Mathlib.Data.Int.Cast.Lemmas
import Mathlib.Tactic.IntervalCases
/-! Zero-phase filtering without feedback. What a pass starts from is gone after as many samples as the
filter has, and the reflections are longer, so every output is a sum over the signal continued at both
ends, the same forwards and backwards. -/
namespace ArrayCalc.Filter

variable {K : Type} [Field K]

section Positions

theorem sampleReverse {xs : List K} {m : Nat} (inside : m < xs.length) :
    sample xs.reverse m = sample xs (xs.length - 1 - m) := by
  rw [sample,List.getD_reverse m inside]
  rfl

theorem sampleMap (f : K → K) {xs : List K} {m : Nat} (inside : m < xs.length) :
    sample (xs.map f) m = f (sample xs m) := by
  simp [sample,inside]

theorem sampleTake {xs : List K} {n m : Nat} (inside : m < n) :
    sample (xs.take n) m = sample xs m := by
  simp [sample,inside]

theorem sampleDrop (xs : List K) (n m : Nat) : sample (xs.drop n) m = sample xs (n + m) := by
  simp [sample]

theorem sampleAppend (xs ys : List K) (m : Nat) : sample (xs ++ ys) m =
    if m < xs.length then sample xs m else sample ys (m - xs.length) := by
  split
  · exact List.getD_append _ _ _ _ ‹_›
  · exact List.getD_append_right _ _ _ _ (Nat.le_of_not_lt ‹_›)

theorem sampleExt {xs ys : List K} (length : xs.length = ys.length)
    (same : ∀ m < xs.length, sample xs m = sample ys m) : xs = ys := by
  refine List.ext_getElem? fun m => ?_
  by_cases inside : m < xs.length
  · rw [sampleInside inside,sampleInside (length ▸ inside),same m inside]
  · rw [List.getElem?_eq_none (by omega),List.getElem?_eq_none (by omega)]

end Positions

section Extension

def extension (x : List K) (i : Int) : K :=
  if i < 0 then 2 * sample x 0 - sample x (-i).toNat
  else if i < x.length then sample x i.toNat
  else 2 * sample x (x.length - 1) - sample x (2 * (x.length - 1) - i.toNat)

theorem mirroredSample (centre : K) {ys : List K} {j : Nat} (inside : j < ys.length) :
    sample (ys.reverse.map (centre + centre - ·)) j =
      2 * centre - sample ys (ys.length - 1 - j) := by
  rw [sampleMap _ (by simpa using inside),sampleReverse inside,two_mul]

theorem reflectSample {n : Nat} {x : List K} (longer : n < x.length) {j : Nat}
    (inside : j < n + x.length + n) : sample (reflect n x) j = extension x (j - n) := by
  have first : x.headD 0 = sample x 0 := by cases x <;> rfl
  have last : x.getLastD 0 = sample x (x.length - 1) := by
    have read := lastInBounds (List.ne_nil_of_length_pos (by omega : 0 < x.length))
    rw [sampleInside (by omega)] at read
    exact (Option.some.inj read).symm
  have ahead : ((x.drop 1).take n).length = n := by simp; omega
  have behind : ((x.drop (x.length - 1 - n)).take n).length = n := by simp; omega
  rw [reflect,first,last,extension,sampleAppend,sampleAppend,List.length_append,List.length_map,
    List.length_reverse,ahead]
  by_cases before : j < n
  · rw [if_pos (by omega),if_pos before,if_pos (by omega),mirroredSample _ (by omega),ahead,
      sampleTake (by omega),sampleDrop]
    congr 2
    omega
  · by_cases within : j < n + x.length
    · rw [if_pos within,if_neg before,if_neg (by omega),if_pos (by omega)]
      congr 1
      omega
    · rw [if_neg within,if_neg (by omega),if_neg (by omega),mirroredSample _ (by omega),behind,
        sampleTake (by omega),sampleDrop]
      congr 2
      omega

theorem extensionReverse (x : List K) {i : Int} (above : -x.length < i) (below : i < 2 * x.length - 1) :
    extension x.reverse i = extension x (x.length - 1 - i) := by
  have ends : sample x.reverse 0 = sample x (x.length - 1) := sampleReverse (by omega)
  have ends' : sample x.reverse (x.length - 1) = sample x 0 := by
    rw [sampleReverse (by omega),Nat.sub_self]
  rw [extension,extension,List.length_reverse,ends,ends']
  by_cases before : i < 0
  · rw [if_pos before,if_neg (by omega),if_neg (by omega),sampleReverse (by omega)]
    congr 2
    omega
  · by_cases within : i < x.length
    · rw [if_neg before,if_pos within,if_neg (by omega),if_pos (by omega),sampleReverse (by omega)]
      congr 1
      omega
    · rw [if_neg before,if_neg within,if_pos (by omega),sampleReverse (by omega)]
      congr 2
      omega

theorem extensionAffine {x : List K} {c d : K} (affine : ∀ i < x.length, sample x i = c + d * i)
    {i : Int} (above : -x.length < i) (below : i < 2 * x.length - 1) : extension x i = c + d * i := by
  have cast (m : Nat) (j : Int) (same : (m : Int) = j) : (m : K) = j := by
    rw [← same,Int.cast_natCast]
  rw [extension]
  by_cases before : i < 0
  · rw [if_pos before,affine _ (by omega),affine _ (by omega),cast (-i).toNat (-i) (by omega)]
    push_cast
    ring
  · by_cases within : i < x.length
    · rw [if_neg before,if_pos within,affine _ (by omega),cast i.toNat i (by omega)]
    · generalize last : x.length - 1 = n
      rw [if_neg before,if_neg within,affine _ (by omega),affine _ (by omega),
        cast (2 * n - i.toNat) (2 * n - i) (by omega)]
      push_cast
      ring

end Extension

section Sums

def spread (h : Nat → K) (n : Nat) (f : Int → K) (i : Int) : K :=
  ∑ k ∈ Finset.range n, ∑ l ∈ Finset.range n, h k * h l * f (i + k - l)

theorem spreadCongr (h : Nat → K) {n : Nat} {f g : Int → K} {i j : Int}
    (same : ∀ k < n, ∀ l < n, f (i + k - l) = g (j + k - l)) : spread h n f i = spread h n g j := by
  refine Finset.sum_congr rfl fun k member => Finset.sum_congr rfl fun l member' => ?_
  rw [same k (Finset.mem_range.mp member) l (Finset.mem_range.mp member')]

theorem spreadMirrored (h : Nat → K) (n : Nat) (f : Int → K) (c i : Int) :
    spread h n (fun j => f (c - j)) i = spread h n f (c - i) := by
  rw [spread,Finset.sum_comm]
  refine Finset.sum_congr rfl fun k _ => Finset.sum_congr rfl fun l _ => ?_
  rw [mul_comm (h l)]
  congr 2
  ring

theorem spreadAffine (h : Nat → K) (n : Nat) (c d : K) (i : Int) :
    spread h n (fun j => c + d * j) i = (∑ k ∈ Finset.range n, h k) ^ 2 * (c + d * i) := by
  have terms (k l : Nat) : h k * h l * (c + d * (i + k - l : Int)) =
      h k * h l * (c + d * i) + (h k * k * h l * d - h k * (h l * l) * d) := by
    push_cast
    ring
  simp only [spread,terms,Finset.sum_add_distrib,Finset.sum_sub_distrib,← Finset.sum_mul,
    ← Finset.sum_mul_sum]
  ring

end Sums

section Passes

def FeedsForward (ps : List (K × K)) : Prop := ∀ k, 1 ≤ k → sample (ps.map Prod.snd) k = 0

variable {ps : List (K × K)}

theorem forwardPass (filled : ps ≠ []) (forward : FeedsForward ps) {held : List K}
    (fits : held.length = ps.length) {xs : List K} {m : Nat} (late : ps.length ≤ m)
    (inside : m < xs.length) : sample (run ps held xs) m =
      ∑ k ∈ Finset.range ps.length, sample (ps.map Prod.fst) k * sample xs (m - k) := by
  have silent : convolve (sample (ps.map Prod.snd)) 1 (sample (run ps held xs)) m = 0 :=
    Finset.sum_eq_zero fun k member => by rw [forward k (Finset.mem_Icc.mp member).1,zero_mul]
  have beyond (k : Nat) (behind : ps.length ≤ k) : sample (ps.map Prod.fst) k = 0 :=
    sampleBeyond (by simpa using behind)
  have taps : Finset.Icc 0 (min m (ps.length - 1)) = Finset.range ps.length := by
    have positive := List.length_pos_iff.mpr filled
    ext k
    simp only [Finset.mem_Icc,Finset.mem_range]
    omega
  rw [runEquation filled fits inside,silent,convolveCut beyond,taps,sampleBeyond (by omega),sub_zero,
    add_zero]

variable [Gauge K]

theorem passesSample (filled : ps ≠ []) (forward : FeedsForward ps) {v : List K} {j : Nat}
    (late : ps.length ≤ j) (early : j + ps.length < v.length) : sample (passes ps ps v) j =
      spread (sample (ps.map Prod.fst)) ps.length (fun i => sample v i.toNat) j := by
  rw [passes]
  generalize passed : run ps (settled ps (v.headD 0)) v = w
  have length : w.length = v.length := passed ▸ runLength ..
  have fits (c : K) : (settled ps c).length = ps.length := fitLength ..
  rw [sampleReverse (by rw [runLength,List.length_reverse]; omega),runLength,List.length_reverse,
    forwardPass filled forward (fits _) (by omega) (by rw [List.length_reverse]; omega)]
  refine Finset.sum_congr rfl fun k member => ?_
  have less : k < ps.length := Finset.mem_range.mp member
  have place : w.length - 1 - (w.length - 1 - j - k) = j + k := by omega
  rw [sampleReverse (by omega),place,← passed,
    forwardPass filled forward (fits _) (by omega) (by omega),Finset.mul_sum]
  refine Finset.sum_congr rfl fun l _ => ?_
  rw [mul_assoc]
  congr 3
  omega

end Passes

section Filtering
variable [Gauge K] [Exact K] {b x : List K} {lead : K}

theorem filteredSamples (accepted : Gauge.isNegligible lead = false)
    (long : 3 * max 1 b.length < x.length) :
    ∃ y, zeroPhase b [lead] x = .ok y ∧ y.length = x.length ∧ ∀ i < x.length,
      sample y i = spread (fun k => sample b k / lead) (max 1 b.length) (extension x) i := by
  obtain ⟨ps,accept,paired⟩ := acceptedPairs (b := b) (a := [lead]) rfl accepted
  have length : ps.length = max 1 b.length := paired.length
  rw [← length] at long ⊢
  have forward : FeedsForward ps := fun k later => by
    rw [paired.feedback,sampleScaled (by rw [length]; exact le_max_left ..),
      sampleBeyond (by simpa using later),zero_div]
  have taps : sample (ps.map Prod.fst) = fun k => sample b k / lead := by
    rw [paired.forward]
    exact funext (sampleScaled (by omega) lead)
  have whole := reflectLength long
  have done := zeroPhasePasses accept (pairsAgain accept) long
  refine ⟨_,done,zeroPhaseLength done,fun i inside => ?_⟩
  rw [sampleTake inside,sampleDrop,passesSample (pairsSome accept) forward (by omega) (by omega),taps]
  refine spreadCongr _ fun k less l less' => ?_
  rw [reflectSample long (by omega)]
  congr 1
  omega

theorem filteredReversed (accepted : Gauge.isNegligible lead = false)
    (long : 3 * max 1 b.length < x.length) {y : List K} (done : zeroPhase b [lead] x = .ok y) :
    zeroPhase b [lead] x.reverse = .ok y.reverse := by
  have long' : 3 * max 1 b.length < x.reverse.length := by rwa [List.length_reverse]
  obtain ⟨_,filtered,length,samples⟩ := filteredSamples accepted long
  cases done.symm.trans filtered
  obtain ⟨z,filtered',length',samples'⟩ := filteredSamples accepted long'
  rw [List.length_reverse] at length' samples'
  have reversed : z = y.reverse := by
    refine sampleExt (by rw [length',List.length_reverse,length]) fun i inside => ?_
    have place : ((y.length - 1 - i : Nat) : Int) = x.length - 1 - i := by omega
    rw [samples' i (by omega),sampleReverse (by omega),samples _ (by omega),place,← spreadMirrored]
    exact spreadCongr _ fun k less l less' => extensionReverse x (by omega) (by omega)
  rw [filtered',reversed]

theorem filteredAffine (accepted : Gauge.isNegligible lead = false)
    (long : 3 * max 1 b.length < x.length) {y : List K} (done : zeroPhase b [lead] x = .ok y) {c d : K}
    (affine : ∀ i < x.length, sample x i = c + d * i) :
    y = x.map ((∑ k ∈ Finset.range (max 1 b.length), sample b k / lead) ^ 2 * ·) := by
  obtain ⟨_,filtered,length,samples⟩ := filteredSamples accepted long
  cases done.symm.trans filtered
  refine sampleExt (by rw [length,List.length_map]) fun i inside => ?_
  rw [length] at inside
  have value := spreadAffine (fun k => sample b k / lead) (max 1 b.length) c d i
  rw [Int.cast_natCast] at value
  rw [samples i inside,sampleMap _ inside,affine i inside,← value]
  exact spreadCongr _ fun k less l less' => extensionAffine affine (by omega) (by omega)

theorem filteredSymmetric (accepted : Gauge.isNegligible lead = false)
    (long : 3 * max 1 b.length < x.length) :
    let n := max 1 b.length
    let h (k : Nat) := sample b k / lead
    ∃ y, zeroPhase b [lead] x = .ok y ∧ y.length = x.length ∧
      (∀ i < x.length, sample y i = ∑ k ∈ Finset.range n, ∑ l ∈ Finset.range n,
        h k * h l * extension x (i + k - l)) ∧
      zeroPhase b [lead] x.reverse = .ok y.reverse ∧
      ∀ c d, (∀ i < x.length, sample x i = c + d * i) →
        y = x.map ((∑ k ∈ Finset.range n, h k) ^ 2 * ·) := by
  intro n h
  obtain ⟨y,done,length,samples⟩ := filteredSamples accepted long
  exact ⟨y,done,length,samples,filteredReversed accepted long done,
    fun _ _ => filteredAffine accepted long done⟩

theorem rampFiltered : Gauge.isNegligible (2 : ℚ) = false ∧
    zeroPhase [1,1 / 10] [2] ([1,2,3,4,5,6,7] : List ℚ) =
      .ok ([1,2,3,4,5,6,7].map ((11 / 20) ^ 2 * ·)) := by
  obtain ⟨y,done,_,_,_,affine⟩ := filteredSymmetric (b := [1,1 / 10]) (x := [1,2,3,4,5,6,7])
    twoAccepted (by decide)
  have ramp : ∀ i < 7, sample ([1,2,3,4,5,6,7] : List ℚ) i = 1 + 1 * i := by
    intro i inside
    interval_cases i <;> norm_num [sample]
  have gain : ∑ k ∈ Finset.range (max 1 2), sample [1,1 / 10] k / (2 : ℚ) = 11 / 20 := by
    norm_num [Finset.sum_range_succ,sample]
  refine ⟨twoAccepted,?_⟩
  rw [done,affine 1 1 ramp,← gain]
  rfl

end Filtering
end ArrayCalc.Filter
