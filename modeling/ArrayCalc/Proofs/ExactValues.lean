import ArrayCalc.Number.Rounding
import Mathlib.Algebra.Order.Field.Power
import Mathlib.Data.Int.Log
import Mathlib.Data.Rat.Floor
import Mathlib.Tactic.FieldSimp
import Mathlib.Tactic.Linarith
import Mathlib.Tactic.Positivity
/-! Finite numbers as exact fractions. A number made whole is the whole number nearest to its value;
of two that are equally near it is the even one. -/
namespace ArrayCalc.Number
open Float.Model.UnpackedFloat (Sign)

def rational? (x : Float) : Option ℚ :=
  match x.toModel.unpack with
  | .finite s m e _ => some (s.apply m * (2 : ℚ) ^ e)
  | .zero _ => some 0
  | _ => none

structure Nearest (q : ℚ) (r : ℤ) : Prop where
  within : |q - r| ≤ 1 / 2
  even : |q - r| = 1 / 2 → Even r

def Rounds (x : Float) (r : ℤ) : Prop := ∃ q, rational? x = some q ∧ Nearest q r

namespace Nearest
variable {q : ℚ} {r r' : ℤ}

theorem neg (near : Nearest q r) : Nearest (-q) (-r) := by
  have same : |-q - (-r : ℤ)| = |q - r| := by
    rw [← abs_neg,Int.cast_neg]
    congr 1
    ring
  exact ⟨same ▸ near.within,fun half => (near.even (same ▸ half)).neg⟩

/- A value between two whole numbers that is near both is half-way, and only one of them is even. -/
theorem notLess (near : Nearest q r) (near' : Nearest q r') : ¬r < r' := by
  intro less
  obtain ⟨_,high⟩ := abs_le.mp near.within
  obtain ⟨low,_⟩ := abs_le.mp near'.within
  have apart : (r : ℚ) + 1 ≤ r' := by exact_mod_cast less
  have half : q - r = 1 / 2 := by linarith
  have half' : q - r' = -(1 / 2) := by linarith
  have next : r' = r + 1 := by
    have : (r' : ℚ) = r + 1 := by linarith
    exact_mod_cast this
  have even := near.even (by rw [half,abs_of_pos (by norm_num)])
  have even' := near'.even (by rw [half',abs_neg,abs_of_pos (by norm_num)])
  rw [next,Int.even_add_one] at even'
  exact even' even

theorem unique (near : Nearest q r) (near' : Nearest q r') : r = r' := by
  rcases lt_trichotomy r r' with less | same | more
  · exact absurd less (near.notLess near')
  · exact same
  · exact absurd more (near'.notLess near)

theorem ofFraction {num den n : Nat} (positive : 0 < den)
    (within : 2 * (num - den * n : ℤ).natAbs ≤ den)
    (even : 2 * (num - den * n : ℤ).natAbs = den → Even n) : Nearest (num / den : ℚ) (n : ℤ) := by
  have scale : (0 : ℚ) < den := by exact_mod_cast positive
  have distance : |(num / den : ℚ) - (n : ℤ)| = (num - den * n : ℤ).natAbs / den := by
    have joined : (num / den : ℚ) - (n : ℤ) = (num - den * n : ℤ) / den := by
      push_cast
      field_simp
    rw [joined,abs_div,abs_of_pos scale,Nat.cast_natAbs,Int.cast_abs]
  refine ⟨?_,fun half => ?_⟩
  · rw [distance,div_le_div_iff₀ scale two_pos,one_mul,mul_comm]
    exact_mod_cast within
  · rw [distance,div_eq_div_iff scale.ne' two_ne_zero,one_mul,mul_comm] at half
    exact_mod_cast even (by exact_mod_cast half)

end Nearest

theorem logOfBounds {b : ℕ} (base : 1 < b) {q : ℚ} {e : ℤ} (low : (b : ℚ) ^ e ≤ q)
    (high : q < (b : ℚ) ^ (e + 1)) : e = Int.log b q := by
  have positive : 0 < q := lt_of_lt_of_le (zpow_pos (by exact_mod_cast base.pos) e) low
  have least := (Int.zpow_le_iff_le_log base positive).mp low
  have most := (Int.lt_zpow_iff_log_lt base positive).mp high
  omega

theorem roundDivNearest (num : Nat) {den : Nat} (positive : 0 < den) :
    Nearest (num / den : ℚ) (roundDiv num den : Nat) := by
  have parts := Nat.div_add_mod num den
  have rest := Nat.mod_lt num positive
  have next : den * (num / den + 1) = den * (num / den) + den := Nat.mul_succ ..
  unfold roundDiv
  dsimp only
  split
  · rename_i below
    have below := Nat.compare_eq_lt.mp below
    exact .ofFraction positive (by omega) (by omega)
  · rename_i tie
    have tie := Nat.compare_eq_eq.mp tie
    rcases Nat.mod_two_eq_zero_or_one (num / den) with even | odd
    · rw [even,Nat.add_zero]
      exact .ofFraction positive (by omega) fun _ => Nat.even_iff.mpr even
    · rw [odd]
      exact .ofFraction positive (by omega) fun _ => Nat.even_iff.mpr (by omega)
  · rename_i above
    have above := Nat.compare_eq_gt.mp above
    exact .ofFraction positive (by omega) (by omega)

theorem fractionValue (m : Nat) (e : ℤ) : 0 < (fraction m e).2 ∧
    ((fraction m e).1 / (fraction m e).2 : ℚ) = m * (2 : ℚ) ^ e := by
  unfold fraction
  split
  · rename_i whole
    obtain ⟨n,rfl⟩ := Int.eq_ofNat_of_zero_le whole
    simp
  · rename_i part
    obtain ⟨n,rfl⟩ := Int.exists_eq_neg_ofNat (by omega : e ≤ 0)
    simp [div_eq_mul_inv]

theorem wholeNearest (s : Sign) (m : Nat) (e : ℤ) :
    Nearest (s.apply m * (2 : ℚ) ^ e) (s.apply (roundDiv (fraction m e).1 (fraction m e).2)) := by
  obtain ⟨positive,value⟩ := fractionValue m e
  have near := roundDivNearest (fraction m e).1 positive
  rw [value] at near
  cases s with
  | positive => exact near
  | negative =>
    have reflected := near.neg
    rw [← neg_mul] at reflected
    exact_mod_cast reflected

theorem Rounds.unique {x : Float} {r r' : ℤ} (rounds : Rounds x r) (rounds' : Rounds x r') : r = r' := by
  obtain ⟨q,value,near⟩ := rounds
  obtain ⟨q',value',near'⟩ := rounds'
  cases value.symm.trans value'
  exact near.unique near'

theorem nearestIntIff (x : Float) (r : ℤ) : nearestInt? x = some r ↔ Rounds x r := by
  unfold nearestInt? whole? Rounds rational?
  cases x.toModel.unpack with
  | infinity s => simp
  | notANumber => simp
  | zero s =>
    have zero : Nearest 0 0 := ⟨by norm_num,fun _ => Even.zero⟩
    simp only [Option.some.injEq,exists_eq_left']
    exact ⟨fun same => same ▸ zero,zero.unique⟩
  | finite s m e positive =>
    have near := wholeNearest s m e
    simp only [Option.some.injEq,exists_eq_left']
    exact ⟨fun same => same ▸ near,near.unique⟩

end ArrayCalc.Number
