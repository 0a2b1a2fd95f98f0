import ArrayCalc.Proofs.ExactValues
/-! Numbers as mantissa and exponent. A finite number has a short mantissa, full unless its exponent is
the least; parts like that survive packing as long as the exponent fits. -/
namespace ArrayCalc.Number
open Float.Model Float.Model.UnpackedFloat

structure Canonical (m : Nat) (e : ℤ) : Prop where
  short : m < 2 ^ 53
  least : -1074 ≤ e
  full : e = -1074 ∨ 2 ^ 52 ≤ m

inductive Fields (s : Sign) (exponent mantissa : Nat) : UnpackedFloat → Prop where
  | infinity (high : exponent = 2047) (none : mantissa = 0) : Fields s exponent mantissa (.infinity s)
  | notANumber (high : exponent = 2047) (some : mantissa ≠ 0) : Fields s exponent mantissa .notANumber
  | zero (low : exponent = 0) (none : mantissa = 0) : Fields s exponent mantissa (.zero s)
  | subnormal {m : Nat} {e : ℤ} (positive : 0 < m) (low : exponent = 0) (parts : m = mantissa)
      (least : e = -1074) : Fields s exponent mantissa (.finite s m e positive)
  | normal {m : Nat} {e : ℤ} (positive : 0 < m) (some : exponent ≠ 0) (below : exponent ≠ 2047)
      (parts : m = 2 ^ 52 + mantissa) (place : e = exponent - 1075) :
      Fields s exponent mantissa (.finite s m e positive)

section Packing
variable {s : Sign} {m : Nat} {e : ℤ} {positive : 0 < m}

theorem implicitBit (mantissa : BitVec 52) : (1#1 ++ mantissa).toNat = 2 ^ 52 + mantissa.toNat := by
  rw [BitVec.toNat_append,← Nat.shiftLeft_add_eq_or_of_lt mantissa.isLt]
  rfl

theorem fields (b : BitVec 64) : Fields (Sign.ofBitVec (@unpackSign Format.binary64 b))
    (@unpackExponent Format.binary64 b).toNat (@unpackMantissa Format.binary64 b).toNat
    (UnpackedFloat.unpack Format.binary64 b) := by
  have bias : Format.binary64.exponentBias = 1023 := rfl
  have same {w : Nat} {a c : BitVec w} (differ : ¬a = c) : a.toNat ≠ c.toNat :=
    fun equal => differ (BitVec.eq_of_toNat_eq equal)
  unfold UnpackedFloat.unpack
  dsimp only
  by_cases high : @unpackExponent Format.binary64 b = -1#11
  · rw [if_pos high]
    have top : (@unpackExponent Format.binary64 b).toNat = 2047 := congrArg BitVec.toNat high
    by_cases none : @unpackMantissa Format.binary64 b = 0#52
    · rw [if_pos none]
      exact .infinity top (congrArg BitVec.toNat none)
    · rw [if_neg none]
      exact .notANumber top (same none)
  · rw [if_neg high]
    by_cases low : @unpackExponent Format.binary64 b = 0#11
    · rw [if_pos low]
      by_cases none : @unpackMantissa Format.binary64 b = 0#52
      · rw [dif_pos none]
        exact .zero (congrArg BitVec.toNat low) (congrArg BitVec.toNat none)
      · rw [dif_neg none]
        refine .subnormal _ (congrArg BitVec.toNat low) rfl ?_
        rw [bias,low]
        rfl
    · rw [if_neg low]
      refine .normal _ (same low) (same high) (implicitBit _) ?_
      rw [bias]
      omega

theorem unpackCanonical {x : Float} (unpacked : x.toModel.unpack = .finite s m e positive) :
    Canonical m e ∧ e ≤ 971 := by
  have parts := fields x.toModel.toBits.toBitVec
  have short := (@unpackMantissa Format.binary64 x.toModel.toBits.toBitVec).isLt
  have high := (@unpackExponent Format.binary64 x.toModel.toBits.toBitVec).isLt
  change _ < 2 ^ 52 at short
  change _ < 2048 at high
  change Fields _ _ _ x.toModel.unpack at parts
  rw [unpacked] at parts
  cases parts with
  | subnormal _ _ same least =>
    subst same least
    exact ⟨⟨by omega,le_refl _,.inl rfl⟩,by decide⟩
  | normal _ some below same place =>
    subst same place
    exact ⟨⟨by omega,by omega,.inr (Nat.le_add_right ..)⟩,by omega⟩

theorem valueParts {x : Float} {q : ℚ} (value : rational? x = some q) :
    (∃ s, x.toModel.unpack = .zero s ∧ q = 0) ∨ ∃ s m e positive,
      x.toModel.unpack = .finite s m e positive ∧ Canonical m e ∧ e ≤ 971 ∧ q = s.apply m * 2 ^ e := by
  unfold rational? at value
  cases unpacked : x.toModel.unpack with
  | infinity | notANumber => simp [unpacked] at value
  | zero s =>
    rw [unpacked] at value
    exact .inl ⟨s,rfl,(Option.some.inj value).symm⟩
  | finite s m e positive =>
    rw [unpacked] at value
    obtain ⟨canonical,fits⟩ := unpackCanonical unpacked
    exact .inr ⟨s,m,e,positive,rfl,canonical,fits,(Option.some.inj value).symm⟩

theorem packedFields (s : Sign) (exponent : BitVec 11) (mantissa : BitVec 52) :
    Fields s exponent.toNat mantissa.toNat
      (UnpackedFloat.unpack Format.binary64 (packComponents Format.binary64 s exponent mantissa)) := by
  have sign : Sign.ofBitVec (unpackSign (packComponents Format.binary64 s exponent mantissa)) = s := by
    change Sign.ofBitVec ((s.toBitVec ++ exponent ++ mantissa).extractLsb' 63 1) = s
    rw [BitVec.extractLsb'_append_eq_of_le (by decide),BitVec.extractLsb'_append_eq_of_le (by decide)]
    cases s <;> rfl
  have parts := fields (packComponents Format.binary64 s exponent mantissa)
  rwa [sign,unpackExponent_packComponents,unpackMantissa_packComponents] at parts

theorem unpackPacked (canonical : Canonical m e) (fits : e ≤ 971) :
    (Float.Model.pack (.finite s m e positive)).unpack = .finite s m e positive := by
  obtain ⟨short,least,full⟩ := canonical
  change UnpackedFloat.unpack Format.binary64 (if 2048 ≤ (e + 1023 + 52).toNat + 1 then _ else
    if m.log2 + 1 = 53 then packComponents Format.binary64 s (.ofNat 11 (e + 1023 + 52).toNat) (.ofNat 52 m)
    else packComponents Format.binary64 s 0#11 (.ofNat 52 m)) = _
  rw [if_neg (by omega)]
  by_cases normal : m.log2 + 1 = 53
  · rw [if_pos normal]
    have big : 2 ^ 52 ≤ m := (Nat.le_log2 positive.ne').mp (by omega)
    have parts := packedFields s (.ofNat 11 (e + 1023 + 52).toNat) (.ofNat 52 m)
    rw [BitVec.toNat_ofNat,BitVec.toNat_ofNat] at parts
    generalize UnpackedFloat.unpack Format.binary64 _ = u at parts ⊢
    cases parts with
    | infinity | notANumber | zero | subnormal => omega
    | @normal m' e' _ _ _ same place =>
      obtain rfl : m' = m := by omega
      obtain rfl : e' = e := by omega
      rfl
  · rw [if_neg normal]
    have small : m < 2 ^ 52 := by
      have log := (Nat.log2_lt positive.ne').mpr short
      exact (Nat.log2_lt positive.ne').mp (by omega)
    have parts := packedFields s 0#11 (.ofNat 52 m)
    rw [BitVec.toNat_ofNat,BitVec.toNat_ofNat,Nat.mod_eq_of_lt small] at parts
    generalize UnpackedFloat.unpack Format.binary64 _ = u at parts ⊢
    cases parts with
    | infinity | notANumber | zero | normal => omega
    | @subnormal _ e' _ _ same place =>
      subst same
      obtain rfl : e' = e := by omega
      rfl

theorem unpackBeyond (beyond : 972 ≤ e) :
    (Float.Model.pack (.finite s m e positive)).unpack = .infinity s := by
  change UnpackedFloat.unpack Format.binary64 (if 2048 ≤ (e + 1023 + 52).toNat + 1 then
    packedInfinity Format.binary64 s else _) = _
  rw [if_pos (by omega)]
  cases s <;> rfl

end Packing

section Order
variable {m : Nat}

theorem belowPower {k : ℕ} (short : m < 2 ^ k) (e : ℤ) : (m * 2 ^ e : ℚ) < 2 ^ (k + e) := by
  rw [zpow_add₀ two_ne_zero,zpow_natCast]
  have short : (m : ℚ) < 2 ^ k := by exact_mod_cast short
  exact mul_lt_mul_of_pos_right short (by positivity)

theorem abovePower {k : ℕ} (long : 2 ^ k ≤ m) (e : ℤ) : (2 ^ (k + e) : ℚ) ≤ m * 2 ^ e := by
  rw [zpow_add₀ two_ne_zero,zpow_natCast]
  have long : (2 ^ k : ℚ) ≤ m := by exact_mod_cast long
  exact mul_le_mul_of_nonneg_right long (by positivity)

theorem signedValue (s : Sign) (positive : 0 < m) (e : ℤ) : match s with
    | .positive => (0 : ℚ) < s.apply m * 2 ^ e
    | .negative => (s.apply m * 2 ^ e : ℚ) < 0 := by
  have size : (0 : ℚ) < m * 2 ^ e := by positivity
  cases s with
  | positive => exact size
  | negative => simpa [Sign.apply] using size

theorem lessIff (x y : Float) :
    x < y ↔ (x.toModel.unpack.compare y.toModel.unpack == some .lt) = true := decide_eq_true_iff

theorem negativeIff {x : Float} {q : ℚ} (value : rational? x = some q) : x < 0.0 ↔ q < 0 := by
  rw [lessIff]
  rcases valueParts value with ⟨s,unpacked,rfl⟩ | ⟨s,m,e,positive,unpacked,_,_,rfl⟩
  · rw [unpacked]
    exact iff_of_false Bool.false_ne_true (lt_irrefl 0)
  · have size := signedValue s positive e
    rw [unpacked]
    cases s with
    | positive => exact iff_of_false Bool.false_ne_true size.not_gt
    | negative => exact iff_of_true rfl size

end Order
end ArrayCalc.Number
