import ArrayCalc.Proofs.NearestNumbers
import Mathlib.Tactic.LinearCombination
/-! Decimals as numbers. Products and quotients of whole numbers are rounded once, and so is a decimal,
whichever way it is computed: it denotes the nearest number. Whole numbers up to `2 ^ 53` are exact. -/
namespace ArrayCalc.Number
open Float.Model Float.Model.UnpackedFloat

section Operations
variable {m n : ℕ} {e f : ℤ} (some : 0 < m) (some' : 0 < n)

theorem finePlace {q : ℚ} (positive : 0 < q) (long : (2 ^ (52 + e) : ℚ) ≤ q) : e ≤ place q := by
  have log := (Int.zpow_le_iff_le_log (b := 2) one_lt_two positive).mp (by exact_mod_cast long)
  unfold place
  omega

theorem multiplyFinite (s t : Sign) :
    UnpackedFloat.mul Format.binary64 (.finite s m e some) (.finite t n f some') =
      roundWithAccuracy Format.binary64 (s * t) (m * n) (e + f) .exact := rfl

theorem divideFinite (s t : Sign) :
    UnpackedFloat.div Format.binary64 (.finite s m e some) (.finite t n f some') =
      let (q,g,accuracy) := divCore Format.binary64 m e n f
      roundWithAccuracy Format.binary64 (s / t) q g accuracy := rfl

theorem productRounded (s t : Sign) (full : 2 ^ 52 ≤ m) :
    Rounded (s * t) (m * 2 ^ e * (n * 2 ^ f))
      (UnpackedFloat.mul Format.binary64 (.finite s m e some) (.finite t n f some')) := by
  have value : (m * 2 ^ e * (n * 2 ^ f) : ℚ) = (m * n : ℕ) * 2 ^ (e + f) := by
    rw [zpow_add₀ two_ne_zero]
    push_cast
    ring
  have positive : (0 : ℚ) < (m * n : ℕ) := by
    push_cast
    positivity
  have long : 2 ^ 52 ≤ m * n := full.trans (Nat.le_mul_of_pos_right m some')
  rw [multiplyFinite,value]
  refine rounds (.whole (m * n)) positive (finePlace (by positivity) ?_) (s * t)
  exact_mod_cast abovePower long (e + f)

theorem quotientRounded (s t : Sign) :
    Rounded (s / t) (m * 2 ^ e / (n * 2 ^ f))
      (UnpackedFloat.div Format.binary64 (.finite s m e some) (.finite t n f some')) := by
  have positive : (0 : ℚ) < m * 2 ^ e / (n * 2 ^ f) := by positivity
  have low : (2 ^ (m.log2 + e) : ℚ) ≤ m * 2 ^ e := abovePower (Nat.log2_self_le some.ne') e
  have high : (n * 2 ^ f : ℚ) < 2 ^ ((n.log2 + 1 : ℕ) + f) := belowPower Nat.lt_log2_self f
  have least : (2 ^ ((m.log2 : ℤ) + e - ((n.log2 + 1 : ℕ) + f)) : ℚ) ≤ m * 2 ^ e / (n * 2 ^ f) := by
    rw [zpow_sub₀ two_ne_zero]
    exact div_le_div₀ (by positivity) low (by positivity) high.le
  have log := (Int.zpow_le_iff_le_log (b := 2) one_lt_two positive).mp (by exact_mod_cast least)
  rw [divideFinite,divCore]
  dsimp only
  generalize goal : min (e - f) (Format.binary64.targetExponent
    (totalExponent m e - totalExponent n f)) = g
  have goal : min (e - f) (max ((m.log2 + 1 + e - (n.log2 + 1 + f) : ℤ) - 53) (-1074)) = g := goal
  have value : ((m <<< (e - f - g).toNat : ℕ) / n : ℚ) * 2 ^ g = m * 2 ^ e / (n * 2 ^ f) := by
    rw [Nat.shiftLeft_eq]
    push_cast
    rw [← zpow_natCast,Int.toNat_of_nonneg (by omega),zpow_sub₀ two_ne_zero,zpow_sub₀ two_ne_zero]
    field_simp
  have shifted : 0 < m <<< (e - f - g).toNat := by
    rw [Nat.shiftLeft_eq]
    positivity
  rw [← value] at log ⊢
  refine rounds (.quotient _ some') (by positivity) ?_ (s / t)
  unfold place
  push_cast at log
  omega

include some in
theorem wholeRounded (s : Sign) : Rounded s (m * 2 ^ e) (UnpackedFloat.round Format.binary64 s m e) := by
  have log := logParts (le_refl (m : ℚ)) (lt_add_one _) some e
  unfold UnpackedFloat.round decreaseExponent
  dsimp only
  generalize goal : Format.binary64.targetExponent (totalExponent m e) = g
  have goal : max ((m.log2 : ℤ) + 1 + e - 53) (-1074) = g := goal
  have value : ((m <<< (e - g).toNat : ℕ) : ℚ) * 2 ^ (e - (e - g).toNat) = m * 2 ^ e := by
    rw [Nat.shiftLeft_eq,zpow_sub₀ two_ne_zero,zpow_natCast]
    push_cast
    field_simp
  have shifted : 0 < m <<< (e - g).toNat := by
    rw [Nat.shiftLeft_eq]
    positivity
  rw [← value] at log ⊢
  refine rounds (.whole _) (by positivity) ?_ s
  unfold place
  omega

include some in
theorem roundedExact {s : Sign} {u : UnpackedFloat} (short : m < 2 ^ 53) (least : -1074 ≤ e)
    (rounded : Rounded s (m * 2 ^ e) u) :
    ∃ k g positive, u = .finite s k g positive ∧ Canonical k g ∧ (k * 2 ^ g : ℚ) = m * 2 ^ e := by
  have log := logParts (le_refl (m : ℚ)) (lt_add_one _) some e
  have length := (Nat.log2_lt some.ne').mpr short
  have coarse : place (m * 2 ^ e) ≤ e := by
    unfold place
    omega
  have whole : (m * 2 ^ e / 2 ^ place (m * 2 ^ e) : ℚ) =
      ((m * 2 ^ (e - place (m * 2 ^ e)).toNat : ℕ) : ℤ) := by
    push_cast
    rw [← zpow_natCast,Int.toNat_of_nonneg (by omega),zpow_sub₀ two_ne_zero,mul_div_assoc]
  have exact (j : ℤ) : Nearest j j := .inside (by norm_num)
  cases rounded with
  | zero near =>
    rw [whole] at near
    have none := (exact _).unique near
    have positive : 0 < m * 2 ^ (e - place (m * 2 ^ e)).toNat := by positivity
    omega
  | finite positive c near canonical value _ =>
    refine ⟨_,_,positive,rfl,canonical,value.trans ?_⟩
    rw [whole] at near
    have quotient : (m * 2 ^ e / 2 ^ place (m * 2 ^ e) : ℚ) = c := by
      rw [whole,(exact _).unique near]
      rfl
    exact ((div_eq_iff (by positivity)).mp quotient).symm

include some in
theorem exactParts (short : m < 2 ^ 53) (least : -1074 ≤ e) (fits : e ≤ 971) : ∃ k g positive,
    (Float.Model.pack (UnpackedFloat.round Format.binary64 .positive m e)).unpack =
      .finite .positive k g positive ∧ Canonical k g ∧ (k * 2 ^ g : ℚ) = m * 2 ^ e := by
  obtain ⟨k,g,positive,same,canonical,value⟩ := roundedExact some short least (wholeRounded some .positive)
  have small : g ≤ 971 := (fitsIff canonical).mpr <| by
    rw [value]
    exact (belowPower short e).trans_le (zpow_le_zpow_right₀ one_le_two (by omega))
  exact ⟨k,g,positive,by rw [same]; exact unpackPacked canonical small,canonical,value⟩

end Operations

theorem wholeParts {n : ℕ} (some : 0 < n) (short : n < 2 ^ 53) : ∃ m e positive,
    n.toUInt64.toFloat.toModel.unpack = .finite .positive m e positive ∧
      (m * 2 ^ e : ℚ) = n ∧ 2 ^ 52 ≤ m := by
  have word : n.toUInt64.toNat = n := Nat.mod_eq_of_lt (by omega)
  have converted : n.toUInt64.toFloat.toModel =
      .pack (UnpackedFloat.round Format.binary64 .positive n 0) := by
    change Float.Model.pack (UnpackedFloat.normalize Format.binary64 n.toUInt64.toNat 0 .positive) = _
    rw [word,UnpackedFloat.normalize,Int.compare_eq_gt.mpr (by omega)]
    rfl
  obtain ⟨m,e,positive,unpacked,canonical,value⟩ :=
    exactParts some short (by decide : -1074 ≤ (0 : ℤ)) (by decide)
  rw [zpow_zero,mul_one] at value
  refine ⟨m,e,positive,by rw [converted]; exact unpacked,value,?_⟩
  refine canonical.full.resolve_left fun least => ?_
  have tiny := belowPower canonical.short e
  rw [value,least] at tiny
  have one : (1 : ℚ) ≤ n := by exact_mod_cast some
  have below : (2 ^ ((53 : ℕ) + (-1074 : ℤ)) : ℚ) ≤ 1 := zpow_le_one_of_nonpos₀ one_le_two (by decide)
  linarith

def isWhole (x : Float) (n : ℕ) : Bool :=
  match x.toModel.unpack with
  | .finite .positive m e _ => (fraction m e).1 == n * (fraction m e).2
  | _ => false

theorem isWholeParts {x : Float} {n : ℕ} (exact : isWhole x n = true) : ∃ m e positive,
    x.toModel.unpack = .finite .positive m e positive ∧ (m * 2 ^ e : ℚ) = n := by
  unfold isWhole at exact
  cases unpacked : x.toModel.unpack with
  | infinity | notANumber | zero => simp [unpacked] at exact
  | finite s m e positive =>
    rw [unpacked] at exact
    cases s with
    | negative => simp at exact
    | positive =>
      obtain ⟨scale,value⟩ := fractionValue m e
      refine ⟨m,e,positive,rfl,?_⟩
      rw [← value,div_eq_iff (by exact_mod_cast scale.ne')]
      exact_mod_cast eq_of_beq exact

theorem tenPowers : ∀ k : Fin 23, isWhole Float.exactlyRepresentablePowersOfTen[k] (10 ^ k.val) = true := by
  decide

theorem zeroNearest {x : Float} (unpacked : x.toModel.unpack = .zero .positive) : NearestNumber 0 x := by
  have positive : (0 : ℚ) < overflow := by
    rw [overflowPlaces]
    exact mul_pos (by norm_num) (by positivity)
  refine .finite 0 positive ?_ ?_ (fun y s _ => ?_) fun y s _ other level => ?_
  · rw [rational?,unpacked]
  · rw [unpacked]
    intro same
    cases same
  · simp
  · simp [other] at level

theorem tinyRounded {q : ℚ} (positive : 0 < q) (tiny : q < 2 ^ (-1075 : ℤ)) (s : Sign) :
    Rounded s q (.zero s) := by
  have log := (Int.lt_zpow_iff_log_lt (b := 2) one_lt_two positive).mp (by exact_mod_cast tiny)
  have least : place q = -1074 := by
    unfold place
    omega
  have half : (2 ^ (-1074 : ℤ) : ℚ) = 2 ^ (-1075 : ℤ) * 2 := zpow_add_one₀ two_ne_zero (-1075)
  refine .zero (.inside ?_)
  rw [least,Int.cast_zero,sub_zero,abs_of_pos (by positivity),div_lt_iff₀ (by positivity),half]
  linarith

section Extremes
variable {n : ℕ} {e : ℤ}

theorem largeDecimal (some : 0 < n) (large : 2048 < e) : overflow ≤ n * 10 ^ e := by
  have one : (1 : ℚ) ≤ n := by exact_mod_cast some
  calc overflow ≤ 2 ^ (1024 : ℤ) := sub_le_self _ (by positivity)
    _ ≤ 2 ^ e := zpow_le_zpow_right₀ one_le_two (by omega)
    _ ≤ 10 ^ e := zpow_le_zpow_left₀ (by omega) two_pos.le (by norm_num)
    _ ≤ n * 10 ^ e := le_mul_of_one_le_left (by positivity) one

theorem smallDecimal (small : e < -(2048 + n.log2)) : (n * 10 ^ e : ℚ) < 2 ^ (-1075 : ℤ) := by
  have powers : (10 ^ e : ℚ) ≤ 2 ^ e := by
    rw [← neg_neg e,zpow_neg,zpow_neg _ (-e)]
    exact inv_anti₀ (by positivity) (zpow_le_zpow_left₀ (by omega) two_pos.le (by norm_num))
  calc (n * 10 ^ e : ℚ) ≤ n * 2 ^ e := mul_le_mul_of_nonneg_left powers (by positivity)
    _ < 2 ^ ((n.log2 + 1 : ℕ) + e) := belowPower Nat.lt_log2_self e
    _ ≤ 2 ^ (-1075 : ℤ) := zpow_le_zpow_right₀ one_le_two (by push_cast; omega)

end Extremes

theorem modelNearest (n : ℕ) (e : ℤ) :
    NearestNumber (n * 10 ^ e) (.ofModel (Float.Model.ofScientific n e)) := by
  change NearestNumber _ (.ofModel (.pack (if none : n = 0 then .zero .positive
    else if e > 2048 then .infinity .positive
    else if e < -(2048 + n.log2) then .zero .positive
    else if 0 ≤ e then UnpackedFloat.mul Format.binary64 (.finite .positive (n <<< 53) (-53) _)
      (.finite .positive (10 ^ e.toNat) 0 _)
    else UnpackedFloat.div Format.binary64 (.finite .positive n 0 _)
      (.finite .positive (10 ^ (-e).toNat) 0 _))))
  by_cases none : n = 0
  · rw [dif_pos none,none,Nat.cast_zero,zero_mul]
    exact zeroNearest rfl
  rw [dif_neg none]
  have some : 0 < n := Nat.pos_of_ne_zero none
  have positive : (0 : ℚ) < n * 10 ^ e := by positivity
  by_cases large : e > 2048
  · rw [if_pos large]
    exact .infinite (largeDecimal some large) rfl
  rw [if_neg large]
  by_cases small : e < -(2048 + n.log2)
  · rw [if_pos small]
    exact roundedNearest positive (tinyRounded positive (smallDecimal small) .positive)
  rw [if_neg small]
  by_cases whole : 0 ≤ e
  · rw [if_pos whole]
    have value : ((n <<< 53 : ℕ) * 2 ^ (-53 : ℤ) * ((10 ^ e.toNat : ℕ) * 2 ^ (0 : ℤ)) : ℚ) = n * 10 ^ e := by
      have cancel : (2 ^ 53 * 2 ^ (-53 : ℤ) : ℚ) = 1 := by norm_num
      rw [Nat.shiftLeft_eq]
      push_cast
      rw [← zpow_natCast (10 : ℚ),Int.toNat_of_nonneg whole]
      linear_combination (n * 10 ^ e : ℚ) * cancel
    have full : 2 ^ 52 ≤ n <<< 53 := by
      rw [Nat.shiftLeft_eq]
      omega
    rw [← value] at positive ⊢
    exact roundedNearest positive (productRounded _ _ .positive .positive full)
  · rw [if_neg whole]
    have value : (n * 2 ^ (0 : ℤ) / ((10 ^ (-e).toNat : ℕ) * 2 ^ (0 : ℤ)) : ℚ) = n * 10 ^ e := by
      push_cast
      rw [mul_one,mul_one,← zpow_natCast (10 : ℚ),Int.toNat_of_nonneg (by omega),zpow_neg,
        div_inv_eq_mul]
    rw [← value] at positive ⊢
    exact roundedNearest positive (quotientRounded _ _ .positive .positive)

section Table
variable {n : ℕ} {x : Float} {m : ℕ} {e : ℤ} {positive : 0 < m}
  (unpacked : x.toModel.unpack = .finite .positive m e positive) (short : n < 2 ^ 53)
include unpacked short

theorem productNearest : NearestNumber (n * (m * 2 ^ e)) (n.toUInt64.toFloat * x) := by
  change NearestNumber _ (.ofModel (.pack (UnpackedFloat.mul Format.binary64
    n.toUInt64.toFloat.toModel.unpack x.toModel.unpack)))
  rw [unpacked]
  rcases Nat.eq_zero_or_pos n with rfl | some
  · rw [Nat.cast_zero,zero_mul]
    have zero : UnpackedFloat.mul Format.binary64 (.zero .positive) (.finite .positive m e positive) =
      .zero .positive := rfl
    exact zeroNearest (congrArg (fun u => (Float.Model.pack u).unpack) zero)
  · obtain ⟨k,f,positive',whole,value,full⟩ := wholeParts some short
    rw [← value,whole]
    exact roundedNearest (by positivity) (productRounded _ _ .positive .positive full)

theorem quotientNearest : NearestNumber (n / (m * 2 ^ e)) (n.toUInt64.toFloat / x) := by
  change NearestNumber _ (.ofModel (.pack (UnpackedFloat.div Format.binary64
    n.toUInt64.toFloat.toModel.unpack x.toModel.unpack)))
  rw [unpacked]
  rcases Nat.eq_zero_or_pos n with rfl | some
  · rw [Nat.cast_zero,zero_div]
    have zero : UnpackedFloat.div Format.binary64 (.zero .positive) (.finite .positive m e positive) =
      .zero .positive := rfl
    exact zeroNearest (congrArg (fun u => (Float.Model.pack u).unpack) zero)
  · obtain ⟨k,f,positive',whole,value,full⟩ := wholeParts some short
    rw [← value,whole]
    exact roundedNearest (by positivity) (quotientRounded _ _ .positive .positive)

end Table

theorem scientificNearest (n : ℕ) (negative : Bool) (k : ℕ) :
    NearestNumber (n * 10 ^ (if negative then -k else k : ℤ)) (Float.ofScientific n negative k) := by
  unfold Float.ofScientific
  by_cases small : n < 2 ^ 53 ∧ k ≤ 22
  · rw [dif_pos small]
    obtain ⟨m,e,positive,unpacked,value⟩ := isWholeParts (tenPowers ⟨k,by omega⟩)
    push_cast at value
    cases negative with
    | true =>
      have near := quotientNearest unpacked small.1
      rw [value,← zpow_natCast,div_eq_mul_inv,← zpow_neg] at near
      exact near
    | false =>
      have near := productNearest unpacked small.1
      rw [value,← zpow_natCast] at near
      exact near
  · rw [dif_neg small]
    cases negative with
    | true =>
      have near := modelNearest n (Int.negOfNat k)
      rw [Int.negOfNat_eq] at near
      exact near
    | false => exact modelNearest n k

end ArrayCalc.Number
