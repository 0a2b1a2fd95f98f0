import ArrayCalc.Proofs.DecimalNumbers
/-! Whole numbers among the numbers. What is a number already is kept by rounding, so that numbers made
whole are exact, and so are counts up to `2 ^ 53`; conversion to a word gives the value back. -/
namespace ArrayCalc.Number
open Float.Model Float.Model.UnpackedFloat

theorem finiteBelow {y : Float} {q : ℚ} (value : rational? y = some q) : q < overflow := by
  have unit : (0 : ℚ) < 2 ^ (971 : ℤ) := by positivity
  rw [overflowPlaces]
  rcases valueParts value with ⟨s,_,rfl⟩ | ⟨s,m,e,positive,_,⟨short,_,_⟩,fits,rfl⟩
  · exact mul_pos (by norm_num) unit
  · have most : (m + 1 : ℚ) ≤ 2 ^ 53 := by exact_mod_cast short
    calc (s.apply m * 2 ^ e : ℚ) ≤ m * 2 ^ e := by
          refine mul_le_mul_of_nonneg_right ?_ (by positivity)
          cases s <;> simp [Sign.apply]
      _ ≤ m * 2 ^ (971 : ℤ) :=
          mul_le_mul_of_nonneg_left (zpow_le_zpow_right₀ one_le_two fits) (by positivity)
      _ < (2 ^ 53 - 1 / 2) * 2 ^ (971 : ℤ) := mul_lt_mul_of_pos_right (by linarith) unit

theorem NearestNumber.exact {q : ℚ} {x y : Float} (near : NearestNumber q x)
    (value : rational? y = some q) : rational? x = some q := by
  cases near with
  | finite r _ same _ nearest _ =>
    have none := nearest y q value
    rw [sub_self,abs_zero] at none
    have zero := abs_eq_zero.mp (le_antisymm none (abs_nonneg _))
    rw [same,← sub_eq_zero.mp zero]
  | infinite beyond _ => exact absurd (finiteBelow value) (not_lt.mpr beyond)

theorem partsNumber {m : ℕ} {e : ℤ} (short : m < 2 ^ 53) (least : -1074 ≤ e) (fits : e ≤ 971) :
    ∃ y, rational? y = some ((m : ℚ) * 2 ^ e) := by
  rcases Nat.eq_zero_or_pos m with rfl | some
  · exact ⟨0.0,by rw [Nat.cast_zero,zero_mul]; rfl⟩
  · obtain ⟨k,g,positive,unpacked,_,value⟩ := exactParts some short least fits
    refine ⟨.ofModel (.pack (UnpackedFloat.round Format.binary64 .positive m e)),?_⟩
    rw [rational?,unpacked,← value]
    rfl

theorem countNearest (n : ℕ) : NearestNumber n (Float.ofNat n) := by
  have near := scientificNearest n false 0
  rw [if_neg Bool.false_ne_true,Nat.cast_zero,zpow_zero,mul_one] at near
  exact near

theorem countExact {n : ℕ} (short : n ≤ 2 ^ 53) : rational? (Float.ofNat n) = some n := by
  rcases short.lt_or_eq with less | rfl
  · obtain ⟨y,value⟩ := partsNumber less (by decide : -1074 ≤ (0 : ℤ)) (by decide)
    rw [zpow_zero,mul_one] at value
    exact (countNearest n).exact value
  · obtain ⟨y,value⟩ := partsNumber (by decide : 1 < 2 ^ 53) (by decide : -1074 ≤ (53 : ℤ)) (by decide)
    refine (countNearest _).exact (y := y) (value.trans ?_)
    norm_num

theorem negated {y : Float} {q : ℚ} (value : rational? y = some q) : rational? (-y) = some (-q) := by
  have packed : (-y).toModel.unpack = (Float.Model.pack y.toModel.unpack.neg).unpack := rfl
  rcases valueParts value with ⟨s,unpacked,rfl⟩ | ⟨s,m,e,positive,unpacked,canonical,fits,rfl⟩
  · rw [rational?,packed,unpacked,neg_zero]
    cases s <;> rfl
  · have negative : (Float.Model.pack (UnpackedFloat.finite s m e positive).neg).unpack =
      .finite (-s) m e positive := unpackPacked canonical fits
    rw [rational?,packed,unpacked,negative]
    cases s <;> simp [Sign.apply]

theorem signedExact {n : ℕ} (exact : rational? (Float.ofNat n) = some n) (s : Sign) :
    rational? (signed s n) = some ((s.apply n : ℤ) : ℚ) := by
  cases s with
  | positive => exact_mod_cast exact
  | negative =>
    have value := negated exact
    push_cast [Sign.apply]
    exact value

theorem roundDivOne (n : ℕ) : roundDiv n 1 = n := by
  simp [roundDiv,Nat.mod_one,Nat.compare_eq_lt.mpr (by decide : 0 < 1)]

/- A number with a part after the point is below `2 ^ 53`, where all counts are numbers. -/
theorem roundDivExact {m : ℕ} {e : ℤ} (canonical : Canonical m e) (fits : e ≤ 971) :
    rational? (Float.ofNat (roundDiv (fraction m e).1 (fraction m e).2)) =
      some (roundDiv (fraction m e).1 (fraction m e).2 : ℚ) := by
  obtain ⟨positive,value⟩ := fractionValue m e
  rcases le_or_gt 0 e with whole | part
  · have parts : fraction m e = (m * 2 ^ e.toNat,1) := if_pos whole
    rw [parts] at value ⊢
    rw [roundDivOne]
    obtain ⟨y,number⟩ := partsNumber canonical.short canonical.least fits
    refine (countNearest _).exact (y := y) (number.trans ?_)
    rw [← value,Nat.cast_one,div_one]
  · apply countExact
    have near := roundDivNearest (fraction m e).1 positive
    rw [value] at near
    generalize roundDiv (fraction m e).1 (fraction m e).2 = k at near
    obtain ⟨low,_⟩ := abs_le.mp near.within
    have below : (m * 2 ^ e : ℚ) < 2 ^ 53 := by
      refine (belowPower canonical.short e).trans_le ?_
      rw [← zpow_natCast]
      exact zpow_le_zpow_right₀ one_le_two (by omega)
    have most : (k : ℚ) < 2 ^ 53 + 1 := by push_cast at low; linarith
    exact Nat.lt_succ_iff.mp (by exact_mod_cast most)

theorem wholeValue {x : Float} {r : ℤ} (rounds : Rounds x r) :
    rational? (whole .nearest x) = some (r : ℚ) := by
  obtain ⟨q,value,near⟩ := rounds
  rcases valueParts value with ⟨s,unpacked,rfl⟩ | ⟨s,m,e,positive,unpacked,canonical,fits,rfl⟩
  · have zero : Nearest 0 0 := ⟨by norm_num,fun _ => Even.zero⟩
    have kept : whole .nearest x = x := by rw [whole,unpacked]
    rw [kept,value,near.unique zero,Int.cast_zero]
  · have made : whole .nearest x = signed s (roundDiv (fraction m e).1 (fraction m e).2) := by
      rw [whole,unpacked]
      rfl
    rw [made,signedExact (roundDivExact canonical fits),near.unique (wholeNearest s m e)]

theorem roundToIntWhole {m n : ℕ} {e : ℤ} (value : (m * 2 ^ e : ℚ) = n) : roundToInt .positive m e = n := by
  have located := (Locates.whole (m <<< (e - 0).toNat)).shifted (0 - (e - (e - 0).toNat)).toNat
  have same : ((m <<< (e - 0).toNat : ℕ) / 2 ^ (0 - (e - (e - 0).toNat)).toNat : ℚ) = n := by
    rw [← value,Nat.shiftLeft_eq,sub_zero]
    push_cast
    rw [← zpow_natCast,← zpow_natCast,mul_div_assoc,← zpow_sub₀ two_ne_zero]
    congr 2
    omega
  rw [same] at located
  change ((ExtendedMantissa.mantissa (_ >>> _) : ℕ) : ℤ) = n
  obtain ⟨low,high⟩ := located.between
  exact_mod_cast le_antisymm (Nat.cast_le.mp low) (Nat.lt_succ_iff.mp (by exact_mod_cast high))

theorem wordClamped (y : Float) :
    y.toUInt64.toNat = min (y.toModel.unpack.toInt 0 (2 ^ 64 - 1)).toNat (2 ^ 64 - 1) := by
  change (UInt64.ofNatClamp (y.toModel.unpack.toInt 0 (2 ^ 64 - 1)).toNat).toNat = _
  generalize (y.toModel.unpack.toInt 0 (2 ^ 64 - 1)).toNat = n
  by_cases less : n < UInt64.size
  · rw [UInt64.ofNatClamp,dif_pos less,UInt64.toNat_ofNatLT]
    exact (min_eq_left (Nat.le_pred_of_lt less)).symm
  · rw [UInt64.ofNatClamp,dif_neg less,UInt64.toNat_ofNatLT,min_eq_right]
    · rfl
    · exact (Nat.pred_le _).trans (not_lt.mp less)

theorem wholeWord {y : Float} {n : ℕ} (value : rational? y = some (n : ℚ)) :
    y.toUInt64.toNat = min n (2 ^ 64 - 1) := by
  rw [wordClamped]
  congr 1
  rcases valueParts value with ⟨s,unpacked,zero⟩ | ⟨s,m,e,positive,unpacked,_,_,same⟩
  · rw [unpacked,Nat.cast_eq_zero.mp zero]
    rfl
  · have size := signedValue s positive e
    cases s with
    | positive =>
      rw [unpacked]
      exact congrArg Int.toNat (roundToIntWhole same.symm)
    | negative => exact absurd (same ▸ size) (not_lt.mpr n.cast_nonneg)

theorem atLeastIff {x : Float} {q : ℚ} (value : rational? x = some q) (n : ℕ) :
    atLeast n x = true ↔ (n : ℚ) ≤ q := by
  rcases valueParts value with ⟨s,unpacked,rfl⟩ | ⟨s,m,e,positive,unpacked,_,_,rfl⟩
  · rw [atLeast,unpacked]
    simp
  · obtain ⟨scale,parts⟩ := fractionValue m e
    have unit : (0 : ℚ) < (fraction m e).2 := by exact_mod_cast scale
    have read : atLeast n x = decide ((n * (fraction m e).2 : ℕ) ≤ s.apply (fraction m e).1) := by
      rw [atLeast,unpacked]
    have signed : (s.apply m * 2 ^ e : ℚ) = s.apply (fraction m e).1 / (fraction m e).2 := by
      cases s with
      | positive => exact parts.symm
      | negative => simp [Sign.apply,neg_div,parts]
    rw [read,decide_eq_true_iff,signed,le_div_iff₀ unit]
    exact_mod_cast Iff.rfl

end ArrayCalc.Number
