import ArrayCalc.Proofs.PackedNumbers
/-! Rounding to the nearest number. A mantissa with its two bits of remainder says where the exact value
lies between whole mantissas; shifting keeps that, and rounding then gives the number nearest to the
value, of two equally near the one whose mantissa is even, and infinity beyond the largest number. -/
namespace ArrayCalc.Number
open Float.Model Float.Model.UnpackedFloat

/- The exponent of the last place of the numbers around `q`. -/
def place (q : ℚ) : ℤ := max (Int.log 2 q - 52) (-1074)

def Locates (x : ExtendedMantissa) (v : ℚ) : Prop :=
  ∃ rest : ℚ, v = x.mantissa + (if x.roundBit then 1 / 2 else 0) + rest ∧ 0 ≤ rest ∧ rest < 1 / 2 ∧
    (x.stickyBit = true ↔ 0 < rest)

theorem Nearest.inside {q : ℚ} {r : ℤ} (near : |q - r| < 1 / 2) : Nearest q r :=
  ⟨near.le,fun half => absurd half near.ne⟩

namespace Locates
variable {x : ExtendedMantissa} {v : ℚ}

theorem nearest (locates : Locates x v) : Nearest v x.roundedMantissa := by
  obtain ⟨m,round,sticky⟩ := x
  obtain ⟨rest,rfl,low,high,sticks⟩ := locates
  have none (clear : sticky = false) : rest = 0 := by
    refine le_antisymm (not_lt.mp fun some => ?_) low
    simpa [clear] using sticks.mpr some
  cases round <;> cases sticky
  · rw [none rfl]
    change Nearest _ (m : ℤ)
    refine .inside (abs_lt.mpr ⟨?_,?_⟩) <;> norm_num
  · change Nearest _ (m : ℤ)
    refine .inside (abs_lt.mpr ⟨?_,?_⟩) <;> push_cast <;> norm_num <;> linarith [sticks.mp rfl]
  · rw [none rfl]
    change Nearest _ ((m + m % 2 : ℕ) : ℤ)
    have even : Even (m + m % 2) := Nat.even_iff.mpr (by omega)
    refine ⟨?_,fun _ => by exact_mod_cast even⟩
    rcases Nat.mod_two_eq_zero_or_one m with zero | one
    · rw [zero]
      norm_num
    · rw [one]
      norm_num
  · change Nearest _ ((m + 1 : ℕ) : ℤ)
    refine .inside (abs_lt.mpr ⟨?_,?_⟩) <;> push_cast <;> norm_num <;> linarith [sticks.mp rfl]

theorem half (locates : Locates x v) : Locates x.shiftRightOne (v / 2) := by
  obtain ⟨m,round,sticky⟩ := x
  obtain ⟨rest,rfl,low,high,sticks⟩ := locates
  have parts : (m : ℚ) = 2 * (m / 2 : ℕ) + (m % 2 : ℕ) := by exact_mod_cast (Nat.div_add_mod m 2).symm
  refine ⟨(if round then 1 / 4 else 0) + rest / 2,?_,?_,?_,?_⟩
  · have bit : ((m % 2 : ℕ) : ℚ) / 2 = if m % 2 != 0 then 1 / 2 else 0 := by
      rcases Nat.mod_two_eq_zero_or_one m with zero | one
      · simp [zero]
      · simp [one]
    change _ = ((m / 2 : ℕ) : ℚ) + (if m % 2 != 0 then 1 / 2 else 0) + _
    rw [← bit,parts]
    cases round <;> norm_num <;> ring
  · split <;> linarith
  · split <;> linarith
  · change (round || sticky) = true ↔ _
    cases round with
    | true => simp; linarith
    | false => simpa using sticks

theorem shifted (locates : Locates x v) (n : ℕ) : Locates (x >>> n) (v / 2 ^ n) := by
  change Locates (n.repeat ExtendedMantissa.shiftRightOne x) _
  induction n with
  | zero => simpa [Nat.repeat] using locates
  | succ n ih =>
    rw [pow_succ,← div_div]
    exact ih.half

theorem between (locates : Locates x v) : x.mantissa ≤ v ∧ v < x.mantissa + 1 := by
  obtain ⟨rest,rfl,low,high,_⟩ := locates
  split <;> constructor <;> linarith

theorem whole (m : ℕ) : Locates (.ofMantissaAndAccuracy m .exact) m :=
  ⟨0,by simp [ExtendedMantissa.ofMantissaAndAccuracy],le_refl _,by norm_num,
    by simp [ExtendedMantissa.ofMantissaAndAccuracy]⟩

theorem quotient (num : ℕ) {den : ℕ} (positive : 0 < den) : Locates
    (.ofMantissaAndAccuracy (num / den) (accuracyOfFraction (num % den) den)) (num / den : ℚ) := by
  have scale : (0 : ℚ) < den := by exact_mod_cast positive
  have parts : (num / den : ℚ) = (num / den : ℕ) + (num % den : ℕ) / den := by
    have sum : (num : ℚ) = den * (num / den : ℕ) + (num % den : ℕ) := by
      exact_mod_cast (Nat.div_add_mod num den).symm
    conv_lhs => rw [sum]
    field_simp
  have below := Nat.mod_lt num positive
  rw [parts]
  generalize num / den = m
  generalize num % den = r at below
  have less : (r : ℚ) < den := by exact_mod_cast below
  unfold accuracyOfFraction
  split
  · rename_i none
    rw [none,Nat.cast_zero,zero_div,add_zero]
    exact whole m
  · rename_i some
    have some : (0 : ℚ) < r := by exact_mod_cast Nat.pos_of_ne_zero some
    have positive : (0 : ℚ) < r / den := by positivity
    have proper : (r / den : ℚ) < 1 := (div_lt_one scale).mpr less
    cases order : compare (2 * r) den with
    | lt =>
      have order : (2 * r : ℚ) < den := by exact_mod_cast Nat.compare_eq_lt.mp order
      have small : (r / den : ℚ) < 1 / 2 := (div_lt_iff₀ scale).mpr (by linarith)
      exact ⟨r / den,by simp [ExtendedMantissa.ofMantissaAndAccuracy],positive.le,small,
        iff_of_true rfl positive⟩
    | eq =>
      have order : (2 * r : ℚ) = den := by exact_mod_cast Nat.compare_eq_eq.mp order
      have middle : (r / den : ℚ) = 1 / 2 := (div_eq_iff scale.ne').mpr (by linarith)
      rw [middle]
      exact ⟨0,by simp [ExtendedMantissa.ofMantissaAndAccuracy],le_refl _,by norm_num,
        iff_of_false Bool.false_ne_true (lt_irrefl _)⟩
    | gt =>
      have order : (den : ℚ) < 2 * r := by exact_mod_cast Nat.compare_eq_gt.mp order
      have large : (1 / 2 : ℚ) < r / den := (lt_div_iff₀ scale).mpr (by linarith)
      exact ⟨r / den - 1 / 2,by simp [ExtendedMantissa.ofMantissaAndAccuracy],by linarith,by linarith,
        iff_of_true rfl (by linarith)⟩

end Locates

section Places
variable {q : ℚ}

theorem scaledBounds (positive : 0 < q) :
    q / 2 ^ place q < 2 ^ 53 ∧ (place q = -1074 ∨ 2 ^ 52 ≤ q / 2 ^ place q) := by
  have unit : (0 : ℚ) < 2 ^ place q := by positivity
  have low := Int.zpow_log_le_self (b := 2) one_lt_two positive
  have high := Int.lt_zpow_succ_log_self (b := 2) one_lt_two q
  push_cast at low high
  constructor
  · rw [div_lt_iff₀ unit,← zpow_natCast,← zpow_add₀ two_ne_zero]
    refine lt_of_lt_of_le high (zpow_le_zpow_right₀ one_le_two ?_)
    unfold place
    push_cast
    omega
  · by_cases least : place q = -1074
    · exact .inl least
    · right
      rw [le_div_iff₀ unit,← zpow_natCast,← zpow_add₀ two_ne_zero]
      refine le_trans (zpow_le_zpow_right₀ one_le_two ?_) low
      unfold place at least ⊢
      push_cast
      omega

theorem coefficientBounds (positive : 0 < q) {c : ℕ} (near : Nearest (q / 2 ^ place q) c) :
    c ≤ 2 ^ 53 ∧ (place q = -1074 ∨ 2 ^ 52 ≤ c) := by
  obtain ⟨low,high⟩ := abs_le.mp near.within
  obtain ⟨below,full⟩ := scaledBounds positive
  push_cast at low high
  constructor
  · have bound : (c : ℚ) < 2 ^ 53 + 1 := by linarith
    exact Nat.lt_succ_iff.mp (by exact_mod_cast bound)
  · refine full.imp_right fun full => ?_
    have bound : (2 ^ 52 : ℚ) < c + 1 := by linarith
    exact Nat.lt_succ_iff.mp (by exact_mod_cast bound)

theorem shiftKept {c : ℕ} {t : ℤ} (short : c < 2 ^ 53) (least : -1074 ≤ t) :
    shiftToTargetExponent Format.binary64 c t .exact = (.ofMantissaAndAccuracy c .exact,t) := by
  have log : c.log2 < 53 := by
    rcases Nat.eq_zero_or_pos c with rfl | some
    · decide
    · exact (Nat.log2_lt some.ne').mpr short
  have target : Format.binary64.targetExponent (totalExponent c t) ≤ t := by
    change max ((c.log2 : ℤ) + 1 + t - 53) (-1074) ≤ t
    omega
  unfold shiftToTargetExponent shiftToExponent
  dsimp only
  rw [Int.toNat_eq_zero.mpr (by omega)]
  exact congrArg (Prod.mk _) (add_zero t)

theorem shiftCarried {t : ℤ} (least : -1074 ≤ t) :
    shiftToTargetExponent Format.binary64 (2 ^ 53) t .exact =
      (.ofMantissaAndAccuracy (2 ^ 52) .exact,t + 1) := by
  have target : Format.binary64.targetExponent (totalExponent (2 ^ 53) t) = t + 1 := by
    change max (((2 ^ 53 : ℕ).log2 : ℤ) + 1 + t - 53) (-1074) = t + 1
    rw [Nat.log2_two_pow]
    omega
  unfold shiftToTargetExponent shiftToExponent
  dsimp only
  rw [target,add_sub_cancel_left]
  rfl

end Places

inductive Rounded (s : Sign) (q : ℚ) : UnpackedFloat → Prop where
  | zero (near : Nearest (q / 2 ^ place q) 0) : Rounded s q (.zero s)
  | finite {m : ℕ} {e : ℤ} (positive : 0 < m) (c : ℕ) (near : Nearest (q / 2 ^ place q) c)
      (canonical : Canonical m e) (value : (m * 2 ^ e : ℚ) = c * 2 ^ place q)
      (even : Even c → Even m) : Rounded s q (.finite s m e positive)

section Rounding
variable {m : ℕ} {e : ℤ} {accuracy : Accuracy} {v : ℚ}

theorem Locates.floor (locates : Locates (.ofMantissaAndAccuracy m accuracy) v) : m ≤ v ∧ v < m + 1 := by
  have mantissa : (ExtendedMantissa.ofMantissaAndAccuracy m accuracy).mantissa = m := by
    rcases accuracy with _ | (_ | _ | _) <;> rfl
  exact mantissa ▸ locates.between

theorem logParts (low : m ≤ v) (high : v < m + 1) (some : 0 < m) (e : ℤ) :
    m.log2 + e = Int.log 2 (v * 2 ^ e) := by
  have unit : (0 : ℚ) < 2 ^ e := by positivity
  have bounds := (Nat.log2_eq_iff some.ne').mp (rfl : m.log2 = m.log2)
  have least : (2 ^ m.log2 : ℚ) ≤ m := by exact_mod_cast bounds.1
  have most : (m + 1 : ℚ) ≤ 2 ^ (m.log2 + 1) := by exact_mod_cast bounds.2
  apply logOfBounds one_lt_two
  · rw [Nat.cast_ofNat,zpow_add₀ two_ne_zero,zpow_natCast]
    exact mul_le_mul_of_nonneg_right (least.trans low) unit.le
  · rw [Nat.cast_ofNat,add_right_comm,zpow_add₀ two_ne_zero,← Nat.cast_succ,zpow_natCast]
    exact mul_lt_mul_of_pos_right (high.trans_le most) unit

theorem targetPlace (locates : Locates (.ofMantissaAndAccuracy m accuracy) v) (positive : 0 < v)
    (fine : e ≤ place (v * 2 ^ e)) :
    Format.binary64.targetExponent (totalExponent m e) = place (v * 2 ^ e) := by
  obtain ⟨low,high⟩ := locates.floor
  change max ((m.log2 : ℤ) + 1 + e - 53) (-1074) = place (v * 2 ^ e)
  rcases Nat.eq_zero_or_pos m with rfl | some
  · have unit : (0 : ℚ) < 2 ^ e := by positivity
    have below : v * 2 ^ e < 2 ^ e := mul_lt_of_lt_one_left unit (by simpa using high)
    have log := (Int.lt_zpow_iff_log_lt (b := 2) one_lt_two (mul_pos positive unit)).mp
      (by exact_mod_cast below)
    unfold place at fine ⊢
    rw [Nat.log2_zero]
    push_cast
    omega
  · have log := logParts low high some e
    unfold place
    omega

/- One place more than the mantissa has is needed only for the power of two, which loses nothing by it. -/
theorem roundedParts {q : ℚ} {c : ℕ} (positive : 0 < q) (near : Nearest (q / 2 ^ place q) c) (s : Sign)
    {parts : ExtendedMantissa × ℤ}
    (shifted : shiftToTargetExponent Format.binary64 c (place q) .exact = parts) :
    Rounded s q (if none : parts.1.mantissa = 0 then .zero s
      else .finite s parts.1.mantissa parts.2 (Nat.pos_of_ne_zero none)) := by
  obtain ⟨most,full⟩ := coefficientBounds positive near
  have least : -1074 ≤ place q := le_max_right ..
  rcases most.lt_or_eq with short | rfl
  · rw [shiftKept short least] at shifted
    subst shifted
    change Rounded s q (if none : c = 0 then .zero s else .finite s c (place q) (Nat.pos_of_ne_zero none))
    by_cases none : c = 0
    · rw [dif_pos none]
      rw [none] at near
      exact .zero near
    · rw [dif_neg none]
      exact .finite _ c near ⟨short,least,full⟩ rfl id
  · rw [shiftCarried least] at shifted
    subst shifted
    have value : ((2 ^ 52 : ℕ) : ℚ) * 2 ^ (place q + 1) = ((2 ^ 53 : ℕ) : ℚ) * 2 ^ place q := by
      rw [zpow_add₀ two_ne_zero]
      push_cast
      ring
    have canonical : Canonical (2 ^ 52) (place q + 1) := ⟨by decide,by omega,.inr (le_refl _)⟩
    have even : Even (2 ^ 52 : ℕ) := by decide
    have some : (2 ^ 52 : ℕ) ≠ 0 := by decide
    change Rounded s q (if none : 2 ^ 52 = 0 then .zero s
      else .finite s (2 ^ 52) (place q + 1) (Nat.pos_of_ne_zero none))
    rw [dif_neg some]
    exact .finite _ (2 ^ 53) near canonical value fun _ => even

theorem rounds (locates : Locates (.ofMantissaAndAccuracy m accuracy) v) (positive : 0 < v)
    (fine : e ≤ place (v * 2 ^ e)) (s : Sign) :
    Rounded s (v * 2 ^ e) (roundWithAccuracy Format.binary64 s m e accuracy) := by
  have target := targetPlace locates positive fine
  have scaled : v / 2 ^ (place (v * 2 ^ e) - e).toNat = v * 2 ^ e / 2 ^ place (v * 2 ^ e) := by
    rw [← zpow_natCast,Int.toNat_of_nonneg (by omega),zpow_sub₀ two_ne_zero]
    field_simp
  have exponent : e + ((place (v * 2 ^ e) - e).toNat : ℤ) = place (v * 2 ^ e) := by omega
  have near := (locates.shifted (place (v * 2 ^ e) - e).toNat).nearest
  rw [scaled] at near
  unfold roundWithAccuracy
  rw [shiftToTargetExponent,target,shiftToExponent]
  dsimp only
  rw [exponent]
  exact roundedParts (by positivity) near s rfl

end Rounding

def EvenMantissa (x : Float) : Prop :=
  ∀ s m e positive, x.toModel.unpack = .finite s m e positive → Even m

/- Half of the last place beyond the largest number, values are rounded to infinity. -/
def overflow : ℚ := 2 ^ (1024 : ℤ) - 2 ^ (970 : ℤ)

inductive NearestNumber (q : ℚ) (x : Float) : Prop where
  | finite (r : ℚ) (below : q < overflow) (value : rational? x = some r)
      (unsigned : x.toModel.unpack ≠ .zero .negative)
      (nearest : ∀ y s, rational? y = some s → |q - r| ≤ |q - s|)
      (even : ∀ y s, rational? y = some s → s ≠ r → |q - s| = |q - r| → EvenMantissa x)
  | infinite (beyond : overflow ≤ q) (value : x.toModel.unpack = .infinity .positive)

section Nearest
variable {q : ℚ} {c : ℤ}

theorem Nearest.apart {j : ℤ} (other : j ≠ c) : 1 ≤ |q - c| + |q - j| := by
  have apart : (1 : ℚ) ≤ |(j - c : ℤ)| := by exact_mod_cast Int.one_le_abs (sub_ne_zero.mpr other)
  push_cast at apart
  calc 1 ≤ |(j : ℚ) - c| := apart
    _ = |(q - c) - (q - j)| := by congr 1; ring
    _ ≤ |q - c| + |q - j| := abs_sub _ _

theorem Nearest.closest (near : Nearest q c) (j : ℤ) : |q - c| ≤ |q - j| := by
  rcases eq_or_ne j c with rfl | other
  · exact le_refl _
  · have apart := Nearest.apart (q := q) other
    have within := near.within
    linarith

theorem Nearest.tie (near : Nearest q c) {j : ℤ} (other : j ≠ c) (level : |q - j| = |q - c|) : Even c := by
  have apart := Nearest.apart (q := q) other
  have within := near.within
  exact near.even (by linarith)

theorem Nearest.reachesEven {n : ℤ} (near : Nearest q c) (even : Even n) : n - 1 / 2 ≤ q ↔ n ≤ c := by
  obtain ⟨low,high⟩ := abs_le.mp near.within
  constructor
  · intro reached
    by_contra less
    have less : (c : ℚ) + 1 ≤ n := by exact_mod_cast not_le.mp less
    have half : q - c = 1 / 2 := by linarith
    have next : n = c + 1 := by
      have next : (n : ℚ) = c + 1 := by linarith
      exact_mod_cast next
    have tied := near.even (by rw [half,abs_of_pos (by norm_num)])
    rw [next,Int.even_add_one] at even
    exact even tied
  · intro reached
    have reached : (n : ℚ) ≤ c := by exact_mod_cast reached
    linarith

/- A number lies on the grid around `q` or, if its own places are finer, under a point of it that is
not above `q`. -/
theorem onGrid (positive : 0 < q) {y : Float} {s : ℚ} (value : rational? y = some s) :
    (∃ j : ℤ, s = j * 2 ^ place q) ∨ ∃ j : ℤ, |s| < j * 2 ^ place q ∧ j * 2 ^ place q ≤ q := by
  rcases valueParts value with ⟨t,_,rfl⟩ | ⟨t,m,e,some,_,⟨short,least,_⟩,_,rfl⟩
  · exact .inl ⟨0,by simp⟩
  · rcases le_or_gt (place q) e with coarse | fine
    · refine .inl ⟨t.apply m * 2 ^ (e - place q).toNat,?_⟩
      push_cast
      rw [mul_assoc,← zpow_natCast,Int.toNat_of_nonneg (by omega),← zpow_add₀ two_ne_zero,sub_add_cancel]
    · have full := (scaledBounds positive).2.resolve_left (by omega)
      refine .inr ⟨2 ^ 52,?_,?_⟩
      · have size : |(t.apply m * 2 ^ e : ℚ)| = m * 2 ^ e := by
          cases t <;> simp [Sign.apply,abs_mul]
        rw [size]
        calc (m * 2 ^ e : ℚ) < 2 ^ ((53 : ℕ) + e) := belowPower short e
          _ ≤ 2 ^ ((52 : ℕ) + place q) := zpow_le_zpow_right₀ one_le_two (by push_cast; omega)
          _ = (2 ^ 52 : ℤ) * 2 ^ place q := by rw [zpow_add₀ two_ne_zero,zpow_natCast]; push_cast; rfl
      · rw [le_div_iff₀ (by positivity)] at full
        exact_mod_cast full

theorem gridClosest (positive : 0 < q) (near : Nearest (q / 2 ^ place q) c) {y : Float} {s : ℚ}
    (value : rational? y = some s) : |q - c * 2 ^ place q| ≤ |q - s| ∧
      (s ≠ c * 2 ^ place q → |q - s| = |q - c * 2 ^ place q| → Even c) := by
  have unit : (0 : ℚ) < 2 ^ place q := by positivity
  have distance (j : ℤ) : |q - j * 2 ^ place q| = |q / 2 ^ place q - j| * 2 ^ place q := by
    rw [← abs_of_pos unit,← abs_mul,abs_of_pos unit]
    congr 1
    field_simp
  have closest (j : ℤ) : |q - c * 2 ^ place q| ≤ |q - j * 2 ^ place q| := by
    rw [distance,distance]
    exact mul_le_mul_of_nonneg_right (near.closest j) unit.le
  rcases onGrid positive value with ⟨j,rfl⟩ | ⟨j,under,low⟩
  · refine ⟨closest j,fun other level => ?_⟩
    rw [distance,distance] at level
    exact near.tie (fun same => other (by rw [same])) (mul_right_cancel₀ unit.ne' level)
  · have farther : |q - c * 2 ^ place q| < |q - s| := by
      calc |q - c * 2 ^ place q| ≤ |q - j * 2 ^ place q| := closest j
        _ = q - j * 2 ^ place q := abs_of_nonneg (by linarith)
        _ < |q| - |s| := by rw [abs_of_pos positive]; linarith
        _ ≤ |q - s| := abs_sub_abs_le_abs_sub q s
    exact ⟨farther.le,fun _ level => absurd level farther.ne'⟩

theorem largestPower : (2 ^ (1024 : ℤ) : ℚ) = 2 ^ 53 * 2 ^ (971 : ℤ) := by
  rw [← zpow_natCast,← zpow_add₀ two_ne_zero]
  rfl

theorem overflowPlaces : overflow = (2 ^ 53 - 1 / 2) * 2 ^ (971 : ℤ) := by
  have half : (2 ^ (971 : ℤ) : ℚ) = 2 ^ (970 : ℤ) * 2 := zpow_add_one₀ two_ne_zero 970
  rw [overflow,largestPower,half]
  ring

/- Around the largest number the last place is `2 ^ 971`. Half of it short of `2 ^ 1024` is a tie, and
goes up because the largest mantissa is odd. -/
theorem overflowIff {c : ℕ} (positive : 0 < q) (near : Nearest (q / 2 ^ place q) c) :
    overflow ≤ q ↔ (2 ^ (1024 : ℤ) : ℚ) ≤ c * 2 ^ place q := by
  have unit : (0 : ℚ) < 2 ^ place q := by positivity
  have last : (0 : ℚ) < 2 ^ (971 : ℤ) := by positivity
  obtain ⟨below,full⟩ := scaledBounds positive
  obtain ⟨most,least⟩ := coefficientBounds positive near
  rw [overflowPlaces,largestPower]
  rcases lt_trichotomy (place q) 971 with small | edge | large
  · have places : (2 ^ place q * 2 : ℚ) ≤ 2 ^ (971 : ℤ) := by
      rw [← zpow_add_one₀ two_ne_zero]
      exact zpow_le_zpow_right₀ one_le_two small
    have product : (c * 2 ^ place q : ℚ) ≤ 2 ^ 53 * 2 ^ place q :=
      mul_le_mul_of_nonneg_right (by exact_mod_cast most) unit.le
    rw [div_lt_iff₀ unit] at below
    generalize (2 ^ (971 : ℤ) : ℚ) = l at *
    exact iff_of_false (by linarith) (by linarith)
  · have even : Even (2 ^ 53 : ℤ) := by decide
    have reaches := near.reachesEven even
    rw [edge] at reaches ⊢
    rw [← le_div_iff₀ last,mul_le_mul_iff_left₀ last]
    exact_mod_cast reaches
  · have full := full.resolve_left (by omega)
    have least : (2 ^ 52 : ℚ) ≤ c := by exact_mod_cast least.resolve_left (by omega)
    have places : (2 ^ (971 : ℤ) * 2 : ℚ) ≤ 2 ^ place q := by
      rw [← zpow_add_one₀ two_ne_zero]
      exact zpow_le_zpow_right₀ one_le_two large
    have product : (2 ^ 52 * 2 ^ place q : ℚ) ≤ c * 2 ^ place q := mul_le_mul_of_nonneg_right least unit.le
    rw [le_div_iff₀ unit] at full
    generalize (2 ^ (971 : ℤ) : ℚ) = l at *
    exact iff_of_true (by linarith) (by linarith)

theorem fitsIff {m : ℕ} {e : ℤ} (canonical : Canonical m e) : e ≤ 971 ↔ (m * 2 ^ e : ℚ) < 2 ^ (1024 : ℤ) := by
  constructor
  · intro fits
    calc (m * 2 ^ e : ℚ) < 2 ^ ((53 : ℕ) + e) := belowPower canonical.short e
      _ ≤ 2 ^ (1024 : ℤ) := zpow_le_zpow_right₀ one_le_two (by omega)
  · intro small
    by_contra large
    have full := canonical.full.resolve_left (by omega)
    have power : (2 ^ (1024 : ℤ) : ℚ) ≤ m * 2 ^ e :=
      (zpow_le_zpow_right₀ one_le_two (by omega)).trans (abovePower full e)
    exact absurd small (not_lt.mpr power)

theorem roundedNearest {u : UnpackedFloat} (positive : 0 < q) (rounded : Rounded .positive q u) :
    NearestNumber q (.ofModel (.pack u)) := by
  cases rounded with
  | zero near =>
    have below : q < overflow := by
      refine not_le.mp fun beyond => ?_
      have power := (overflowIff (c := 0) positive near).mp beyond
      rw [Nat.cast_zero,zero_mul] at power
      exact absurd power (not_le.mpr (by positivity))
    have unpacked : (Float.Model.pack (.zero .positive)).unpack = .zero .positive := rfl
    refine .finite 0 below rfl ?_ (fun y s value => ?_) fun y s _ _ _ => ?_
    · rw [unpacked]
      intro same
      cases same
    · simpa using (gridClosest positive near value).1
    · intro t m e some finite
      rw [unpacked] at finite
      cases finite
  | @finite m e some c near canonical value even =>
    have grid : ((m : ℤ) * 2 ^ e : ℚ) = (c : ℤ) * 2 ^ place q := by exact_mod_cast value
    rcases lt_or_ge q overflow with below | beyond
    · have fits := (fitsIff canonical).mpr <| not_le.mp fun power =>
        absurd ((overflowIff positive near).mpr (value ▸ power)) (not_le.mpr below)
      have unpacked : (Float.Model.pack (.finite .positive m e some)).unpack = .finite .positive m e some :=
        unpackPacked canonical fits
      refine .finite ((c : ℤ) * 2 ^ place q) below ?_ ?_ (fun y s value => ?_) fun y s value other level => ?_
      · rw [← grid,rational?,unpacked]
        rfl
      · rw [unpacked]
        intro same
        cases same
      · exact (gridClosest positive near value).1
      · intro t m' e' some' finite
        rw [unpacked] at finite
        cases finite
        exact even (by exact_mod_cast (gridClosest positive near value).2 other level)
    · refine .infinite beyond (unpackBeyond ?_)
      have power := (overflowIff positive near).mp beyond
      rw [← value] at power
      by_contra fits
      exact absurd ((fitsIff canonical).mp (by omega)) (not_lt.mpr power)

end Nearest
end ArrayCalc.Number
