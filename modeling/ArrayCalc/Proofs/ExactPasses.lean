import ArrayCalc.Proofs.DifferenceEquation
import Mathlib.Algebra.BigOperators.Group.List.Lemmas
import Mathlib.Algebra.BigOperators.Ring.List
import Mathlib.Tactic.LinearCombination
/-! Zero-phase filtering in exact arithmetic. Coefficients that have been divided by the leading one
once stay as they are, so both passes run with the same ones. Each starts in the steady state of a
constant signal: on such a signal the delay line never changes, and nothing but the gain is left. -/
namespace ArrayCalc.Filter

/- Arithmetic without rounding or overflow: of zero and one, only zero is too small to divide by. -/
class Exact (K : Type) [Field K] [Gauge K] : Prop where
  zero : Gauge.isNegligible (0 : K) = true
  one : Gauge.isNegligible (1 : K) = false
  finite : ∀ x : K, Gauge.isFinite x = true

instance orderedExact {K : Type} [Field K] [LinearOrder K] [IsStrictOrderedRing K] : Exact K where
  zero := decide_eq_true (by norm_num)
  one := decide_eq_false (by norm_num)
  finite _ := rfl

variable {K : Type} [Field K]

section Lines

theorem totalSum (xs : List K) : total xs = xs.sum := by
  rw [total,neg_zero,List.sum_eq_foldl]

theorem tailSumsLength (xs : List K) : (tailSums xs).length = xs.length := by
  induction xs with
  | nil => rfl
  | cons x xs ih => exact congrArg Nat.succ ih

def gain (ps : List (K × K)) : K := (ps.map Prod.fst).sum / (ps.map Prod.snd).sum

def surplus (g : K) (p : K × K) : K := p.1 - g * p.2

theorem surplusSum (g : K) (ps : List (K × K)) :
    (ps.map (surplus g)).sum = (ps.map Prod.fst).sum - g * (ps.map Prod.snd).sum := by
  induction ps with
  | nil => simp
  | cons p ps ih =>
    simp only [List.map_cons,List.sum_cons,ih,surplus]
    ring

def steadyLine (g c : K) (ps : List (K × K)) : List K :=
  (tailSums (ps.map (surplus g))).map (· * c) ++ [0]

theorem steadyLineCons (g c : K) (p : K × K) (ps : List (K × K)) : steadyLine g c (p :: ps) =
    ((steadyLine g c ps).headD 0 + surplus g p * c) :: steadyLine g c ps := by
  have head : ((tailSums (ps.map (surplus g))).headD 0 + surplus g p) * c =
      (steadyLine g c ps).headD 0 + surplus g p * c := by
    rw [add_mul,steadyLine]
    cases tailSums (ps.map (surplus g)) <;> simp
  exact congrArg (· :: steadyLine g c ps) head

theorem steadyLineHead (g c : K) (ps : List (K × K)) :
    (steadyLine g c ps).headD 0 = (ps.map (surplus g)).sum * c := by
  induction ps with
  | nil => simp [steadyLine,tailSums]
  | cons p ps ih =>
    rw [steadyLineCons,List.headD_cons,ih,List.map_cons,List.sum_cons]
    ring

theorem steadyLineSlots (g c : K) (ps : List (K × K)) :
    ps.zipWith (fun p z => p.1 * c - p.2 * (g * c) + z) (steadyLine g c ps).tail ++ [0] =
      steadyLine g c ps := by
  induction ps with
  | nil => rfl
  | cons p ps ih =>
    obtain ⟨z,line,held⟩ : ∃ z line, steadyLine g c ps = z :: line :=
      List.exists_cons_of_ne_nil (by simp [steadyLine])
    rw [steadyLineCons,List.tail_cons]
    rw [held] at ih ⊢
    rw [List.zipWith_cons_cons,List.cons_append]
    refine congrArg₂ List.cons ?_ ih
    rw [List.headD_cons,surplus]
    ring

end Lines

section Signals

theorem headConstant {n : Nat} (filled : 0 < n) (c : K) : (List.replicate n c).headD 0 = c := by
  simp [List.head?_replicate,filled.ne']

theorem lastConstant {n : Nat} (filled : 0 < n) (c : K) : (List.replicate n c).getLastD 0 = c := by
  simp [List.getLastD_eq_getLast?,List.getLast?_replicate,filled.ne']

theorem reflectConstant {n m : Nat} (longer : n < m) (c : K) :
    reflect n (List.replicate m c) = List.replicate (n + m + n) c := by
  have filled : 0 < m := by omega
  simp only [reflect,headConstant filled,lastConstant filled,List.drop_replicate,List.take_replicate,
    List.reverse_replicate,List.map_replicate,List.replicate_append_replicate,add_sub_cancel_right,
    List.length_replicate]
  congr 1
  omega

end Signals

section Passes

theorem scaledSum {n : Nat} {cs : List K} (short : cs.length ≤ n) (lead : K) :
    (scaled lead n cs).sum = cs.sum / lead := by
  have whole : (cs.map (· / lead)).take n = cs.map (· / lead) :=
    List.take_of_length_le (by simpa using short)
  rw [scaled,fit,whole,List.sum_append,List.sum_replicate,nsmul_zero,add_zero]
  simp only [div_eq_mul_inv]
  rw [List.sum_map_mul_right,List.map_id']

theorem scaledOne {n : Nat} {cs : List K} (same : cs.length = n) : scaled 1 n cs = cs := by
  simp [scaled,fit,same]

variable [Gauge K] [Exact K] {b a : List K} {ps : List (K × K)}

theorem acceptedNonzero {lead : K} (accepted : Gauge.isNegligible lead = false) : lead ≠ 0 := by
  rintro rfl
  rw [Exact.zero] at accepted
  contradiction

theorem unitFeedback (done : coefficientPairs b a = .ok ps) : (ps.map Prod.snd).head? = some 1 := by
  obtain ⟨lead,paired⟩ := pairedOf done
  rw [paired.feedback,headScaled paired.leads (List.length_pos_iff.mpr (pairsSome done)),
    div_self (acceptedNonzero paired.accepted)]

theorem pairsAgain (done : coefficientPairs b a = .ok ps) :
    coefficientPairs (ps.map Prod.fst) (ps.map Prod.snd) = .ok ps := by
  rw [pairsAccepted _ (unitFeedback done) Exact.one,List.length_map,List.length_map,max_self,
    scaledOne (List.length_map _),scaledOne (List.length_map _),← List.unzip_fst,← List.unzip_snd,
    List.zip_unzip]

end Passes

section Constants
variable [Gauge K] [Exact K] {b a : List K} {ps : List (K × K)}

theorem settledLine (p : K × K) (ps : List (K × K)) (c : K) :
    settled (p :: ps) c = steadyLine (gain (p :: ps)) c ps := by
  have finite : Gauge.isFinite (gain (p :: ps)) = true := Exact.finite _
  have seeded : seed (p :: ps) = tailSums (ps.map (surplus (gain (p :: ps)))) := by
    rw [seed,totalSum,totalSum]
    exact if_pos finite
  simp [settled,seeded,fit,tailSumsLength,steadyLine]

theorem settledSteady (unit : (ps.map Prod.snd).head? = some 1) (nonzero : (ps.map Prod.snd).sum ≠ 0)
    (c : K) : advance ps (settled ps c) c = (gain ps * c,settled ps c) := by
  cases ps with
  | nil => contradiction
  | cons p ps =>
    have one : p.2 = 1 := Option.some.inj unit
    have balance : gain (p :: ps) * ((p :: ps).map Prod.snd).sum = ((p :: ps).map Prod.fst).sum :=
      div_mul_cancel₀ _ nonzero
    rw [settledLine]
    generalize gain (p :: ps) = g at balance ⊢
    simp only [List.map_cons,List.sum_cons,one] at balance
    have output : p.1 * c + (steadyLine g c ps).headD 0 = g * c := by
      rw [steadyLineHead,surplusSum]
      linear_combination -c * balance
    have slots := steadyLineSlots g c ps
    rw [← output] at slots ⊢
    exact Prod.ext rfl slots

theorem runConstant (unit : (ps.map Prod.snd).head? = some 1) (nonzero : (ps.map Prod.snd).sum ≠ 0)
    (c : K) (n : Nat) :
    run ps (settled ps c) (List.replicate n c) = List.replicate n (gain ps * c) := by
  induction n with
  | zero => rfl
  | succ n ih => rw [List.replicate_succ,runCons,settledSteady unit nonzero,ih,List.replicate_succ]

theorem passesConstant (unit : (ps.map Prod.snd).head? = some 1)
    (nonzero : (ps.map Prod.snd).sum ≠ 0) (c : K) {n : Nat} (filled : 0 < n) :
    passes ps ps (List.replicate n c) = List.replicate n (gain ps ^ 2 * c) := by
  simp only [passes,headConstant filled,runConstant unit nonzero,lastConstant filled,
    List.reverse_replicate]
  rw [pow_two,mul_assoc]

theorem feedbackNonzero (done : coefficientPairs b a = .ok ps) (nonzero : a.sum ≠ 0) :
    (ps.map Prod.snd).sum ≠ 0 := by
  obtain ⟨lead,paired⟩ := pairedOf done
  rw [paired.feedback,scaledSum (paired.length ▸ le_max_left ..)]
  exact div_ne_zero nonzero (acceptedNonzero paired.accepted)

theorem gainOf (done : coefficientPairs b a = .ok ps) : gain ps = b.sum / a.sum := by
  obtain ⟨lead,paired⟩ := pairedOf done
  rw [gain,paired.forward,paired.feedback,scaledSum (paired.length ▸ le_max_right ..),
    scaledSum (paired.length ▸ le_max_left ..),
    div_div_div_cancel_right₀ (acceptedNonzero paired.accepted)]

theorem steadyOnConstants {lead : K} (leads : a.head? = some lead)
    (accepted : Gauge.isNegligible lead = false) (nonzero : a.sum ≠ 0) :
    ∃ ps, coefficientPairs b a = .ok ps ∧ ∀ (c : K) (n : Nat),
      response (ps.map Prod.fst) (ps.map Prod.snd) ((seed ps).map (· * c)) (List.replicate n c) =
        .ok (List.replicate n (b.sum / a.sum * c)) ∧
      (3 * max a.length b.length < n → zeroPhase b a (List.replicate n c) =
        .ok (List.replicate n ((b.sum / a.sum) ^ 2 * c))) := by
  obtain ⟨ps,done,paired⟩ := acceptedPairs (b := b) leads accepted
  have unit := unitFeedback done
  have nonzero' := feedbackNonzero done nonzero
  refine ⟨ps,done,fun c n => ⟨?_,fun long => ?_⟩⟩
  · rw [responseRuns (pairsAgain done),← gainOf done,← runConstant unit nonzero' c n]
    rfl
  · have longer : 3 * ps.length < n := paired.length.symm ▸ long
    rw [zeroPhasePasses done (pairsAgain done) (by simpa using longer),reflectConstant longer,
      passesConstant unit nonzero' c (by omega),gainOf done,List.drop_replicate,List.take_replicate,
      List.length_replicate]
    congr 2
    omega

theorem unstableOnConstants : Gauge.isNegligible (2 : ℚ) = false ∧ ([2,-6] : List ℚ).sum ≠ 0 ∧
    zeroPhase [1,1] [2,-6] (List.replicate 7 (4 : ℚ)) = .ok (List.replicate 7 1) := by
  have nonzero : ([2,-6] : List ℚ).sum ≠ 0 := by norm_num
  obtain ⟨_,_,steady⟩ := steadyOnConstants (b := [1,1]) (a := [2,-6]) rfl twoAccepted nonzero
  have filtered := (steady 4 7).2 (by decide)
  norm_num at filtered
  exact ⟨twoAccepted,nonzero,filtered⟩

end Constants
end ArrayCalc.Filter
