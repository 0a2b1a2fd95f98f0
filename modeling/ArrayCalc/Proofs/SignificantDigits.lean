import ArrayCalc.Proofs.DecimalTexts
/-! Five significant digits. Whatever the magnitude, the text of a number is the decimal nearest to it
whose last place is four below the leading one, also where rounding carries into a new leading digit. -/
namespace ArrayCalc.Number
open Float.Model.UnpackedFloat (Sign)

section Scaling

theorem digitCountBounds {n : Nat} (positive : 0 < n) :
    ∃ k, digitCount n = k + 1 ∧ 10 ^ k ≤ n ∧ n < 10 ^ (k + 1) := by
  have bounded (k : Nat) : digitCount n ≤ k + 1 ↔ n < 10 ^ (k + 1) :=
    Nat.length_toDigits_le_iff (by decide) k.succ_pos
  have started : 0 < digitCount n := Nat.length_toDigits_pos
  obtain ⟨k,count⟩ := Nat.exists_eq_succ_of_ne_zero started.ne'
  refine ⟨k,count,?_,(bounded k).mp count.le⟩
  cases k with
  | zero => exact positive
  | succ k =>
    refine not_lt.mp fun less => ?_
    have fewer := (bounded k).mpr less
    omega

theorem scaledNearest (num : Nat) {den : Nat} (positive : 0 < den) (place : ℤ) :
    Nearest ((num / den : ℚ) / 10 ^ place) (scaled num den place : Nat) := by
  have near := roundDivNearest (num * 10 ^ (-place).toNat)
    (Nat.mul_pos positive (Nat.pow_pos (n := place.toNat) (by decide : 0 < 10)))
  have shift : (10 : ℚ) ^ place = 10 ^ place.toNat / 10 ^ (-place).toNat := by
    conv_lhs => rw [← Int.toNat_sub_toNat_neg place]
    rw [zpow_sub₀ (by norm_num),zpow_natCast,zpow_natCast]
  have same : ((num * 10 ^ (-place).toNat : Nat) / (den * 10 ^ place.toNat : Nat) : ℚ) =
      (num / den : ℚ) / 10 ^ place := by
    rw [shift]
    push_cast
    field_simp
  rw [same] at near
  exact near

variable {num den : Nat} (above : 0 < num) (positive : 0 < den)
include above positive

theorem decimalExponentLog : decimalExponent num den = Int.log 10 (num / den : ℚ) := by
  have scale : (0 : ℚ) < den := by exact_mod_cast positive
  unfold decimalExponent
  split
  · rename_i whole
    obtain ⟨k,count,low,high⟩ := digitCountBounds (Nat.div_pos whole positive)
    rw [count,Nat.cast_add,Nat.cast_one,add_sub_cancel_right]
    apply logOfBounds (by decide)
    · rw [Nat.cast_ofNat,zpow_natCast,le_div_iff₀ scale]
      exact_mod_cast (Nat.le_div_iff_mul_le positive).mp low
    · rw [Nat.cast_ofNat,← Nat.cast_succ,zpow_natCast,div_lt_iff₀ scale]
      exact_mod_cast (Nat.div_lt_iff_lt_mul positive).mp high
  · rename_i part
    have parts := Nat.div_add_mod (den + num - 1) num
    have rest := Nat.mod_lt (den + num - 1) above
    generalize (den + num - 1) / num = c at parts
    obtain ⟨n,rfl⟩ : ∃ n, c = n + 1 := Nat.exists_eq_succ_of_ne_zero fun none => by
      subst none
      omega
    rw [Nat.mul_succ] at parts
    have under : num * n < den := by omega
    have reaches : den ≤ num * (n + 1) := by
      rw [Nat.mul_succ]
      omega
    have some : 0 < n := Nat.pos_of_ne_zero fun none => by
      subst none
      omega
    obtain ⟨k,count,low,high⟩ := digitCountBounds some
    rw [Nat.add_sub_cancel,count]
    apply logOfBounds (by decide)
    · rw [Nat.cast_ofNat,zpow_neg,zpow_natCast,inv_le_comm₀ (by positivity) (by positivity),inv_div,
        div_le_iff₀ (by exact_mod_cast above)]
      have enough : den ≤ 10 ^ (k + 1) * num := by
        rw [Nat.mul_comm]
        exact reaches.trans (Nat.mul_le_mul_left num high)
      exact_mod_cast enough
    · have next : -((k + 1 : Nat) : ℤ) + 1 = -(k : ℤ) := by
        push_cast
        ring
      rw [Nat.cast_ofNat,next,zpow_neg,zpow_natCast,lt_inv_comm₀ (by positivity) (by positivity),inv_div,
        lt_div_iff₀ (by exact_mod_cast above)]
      have less : 10 ^ k * num < den := by
        rw [Nat.mul_comm]
        exact (Nat.mul_le_mul_left num low).trans_lt under
      exact_mod_cast less

theorem scaledRange (k : Nat) :
    10 ^ k ≤ scaled num den (Int.log 10 (num / den : ℚ) - k) ∧
    scaled num den (Int.log 10 (num / den : ℚ) - k) ≤ 10 ^ (k + 1) := by
  have size : (0 : ℚ) < num / den := by positivity
  have low := Int.zpow_log_le_self (b := 10) (by decide) size
  have high := Int.lt_zpow_succ_log_self (b := 10) (by decide) (num / den : ℚ)
  have near := (scaledNearest num positive (Int.log 10 (num / den : ℚ) - k)).within
  push_cast at low high near
  generalize scaled num den (Int.log 10 (num / den : ℚ) - k) = c at near ⊢
  generalize Int.log 10 (num / den : ℚ) = e at low high near
  have unit : (0 : ℚ) < 10 ^ (e - k) := by positivity
  have least : (10 : ℚ) ^ k ≤ (num / den : ℚ) / 10 ^ (e - k) := by
    rw [le_div_iff₀ unit,← zpow_natCast,← zpow_add₀ (by norm_num),add_sub_cancel]
    exact low
  have most : (num / den : ℚ) / 10 ^ (e - k) < 10 ^ (k + 1) := by
    have sum : ((k + 1 : Nat) : ℤ) + (e - k) = e + 1 := by
      push_cast
      ring
    rw [div_lt_iff₀ unit,← zpow_natCast,← zpow_add₀ (by norm_num),sum]
    exact high
  obtain ⟨below,beyond⟩ := abs_le.mp near
  constructor
  · have : (10 : ℚ) ^ k < c + 1 := by linarith
    exact Nat.lt_succ_iff.mp (by exact_mod_cast this)
  · have : (c : ℚ) < 10 ^ (k + 1) + 1 := by linarith
    exact Nat.lt_succ_iff.mp (by exact_mod_cast this)

/- A carry trades a factor of ten for a step of the exponent. -/
theorem leadingScaled (k : Nat) : (leading k num den).1 ≤ 10 ^ (k + 1) ∧
    ((leading k num den).1 : ℚ) * 10 ^ ((leading k num den).2 - k) =
      scaled num den (Int.log 10 (num / den : ℚ) - k) * 10 ^ (Int.log 10 (num / den : ℚ) - k) := by
  have most := (scaledRange above positive k).2
  unfold leading
  rw [decimalExponentLog above positive]
  generalize Int.log 10 (num / den : ℚ) = e at most
  dsimp only
  split
  · rename_i carry
    rw [carry]
    refine ⟨Nat.pow_le_pow_right (by decide) k.le_succ,?_⟩
    have step : e + 1 - k = 1 + (e - k) := by ring
    change ((10 ^ k : Nat) : ℚ) * _ = ((10 ^ (k + 1) : Nat) : ℚ) * _
    rw [step,zpow_add₀ (by norm_num),zpow_one,pow_succ]
    push_cast
    ring
  · exact ⟨most,rfl⟩

end Scaling

structure Abridges (negative : Bool) (n : Numeral) (q : ℚ) (e : ℤ) : Prop where
  few : n.significant.length ≤ 5
  within : |(if negative then -n.rational else n.rational) - q| ≤ 10 ^ (e - 4) / 2
  sign : negative = decide (q < 0) ∧ 0 < n.rational
  ends : ∀ ds ∈ n.fraction, ∃ d, ds.getLast? = some d ∧ d ≠ '0'
  exponent : n.exponent.isSome = true ↔ e < -5 ∨ 5 ≤ e

section Writing
variable {c places : Nat}

theorem Nearest.halfUnit {a u : ℚ} {r : Nat} (unit : 0 < u) (near : Nearest (a / u) r) :
    |r * u - a| ≤ u / 2 := by
  have split : r * u - a = -((a / u - r) * u) := by
    field_simp
    ring
  rw [split,abs_neg,abs_mul,abs_of_pos unit,div_eq_inv_mul u]
  exact mul_le_mul_of_nonneg_right (by simpa using near.within) unit.le

theorem fixedAbridges {a : ℚ} {e : ℤ} {r : Nat} {exponent : Option ExponentPart} (above : 0 < a)
    (few : c ≤ 10 ^ 5) (near : Nearest (a / 10 ^ (e - 4)) r) (some : 0 < r)
    (value : (fixedNumeral c places exponent).rational = r * (10 : ℚ) ^ (e - 4))
    (written : exponent.isSome = true ↔ e < -5 ∨ 5 ≤ e) (negative : Bool) :
    Abridges negative (fixedNumeral c places exponent) (if negative then -a else a) e where
  few := fixedSignificant few exponent
  ends := Numeral.trimmedEnds
  exponent := written
  sign := by
    rw [value]
    refine ⟨?_,by positivity⟩
    cases negative with
    | true => simpa using above
    | false => simpa using above.le
  within := by
    have distance := near.halfUnit (by positivity)
    rw [value]
    cases negative with
    | true =>
      rw [if_pos rfl,if_pos rfl,neg_sub_neg,abs_sub_comm]
      exact distance
    | false => exact distance

end Writing

def minus : Sign → Bool
  | .positive => false
  | .negative => true

theorem signTextMinus (s : Sign) : (signText s).toList = if minus s then ['-'] else [] := by
  cases s <;> rfl

theorem applyMinus (s : Sign) (m : Nat) (e : ℤ) :
    (s.apply m : ℚ) * 2 ^ e = if minus s then -(m * 2 ^ e : ℚ) else m * 2 ^ e := by
  cases s with
  | positive => rfl
  | negative => simp [minus,Sign.apply]

theorem finiteNonzero {x : Float} {s : Sign} {m : Nat} {e : ℤ} {positive : 0 < m}
    (unpacked : x.toModel.unpack = .finite s m e positive) : (x == 0.0) = false ∧ x.isFinite = true := by
  have zero : (0.0 : Float).toModel.unpack = .zero .positive := rfl
  constructor
  · change x.toModel.unpack.beq (0.0 : Float).toModel.unpack = false
    rw [unpacked,zero]
    cases s <;> rfl
  · change x.toModel.unpack.isFinite = true
    rw [unpacked]
    rfl

def Abridgement (s : Sign) (a : ℚ) (e : ℤ) (cs : List Char) : Prop :=
  ∃ n, cs = (signText s).toList ++ n.chars ∧ n.Formed ∧ n.Complete ∧
    Abridges (minus s) n (if minus s then -a else a) e

theorem signPointless (s : Sign) : '.' ∉ (signText s).toList := by
  cases s <;> decide

section Branches
variable {num den : Nat} (above : 0 < num) (positive : 0 < den) (s : Sign) {e : ℤ}
  (lead : e = Int.log 10 (num / den : ℚ))
include above positive lead

theorem positionalAbridgement (positional : -5 ≤ e ∧ e < 5) : Abridgement s (num / den) e
    (trimFraction ((signText s).toList ++
      fixedDigits (scaled num den (-(4 - e).toNat)) (4 - e).toNat)) := by
  have near := scaledNearest num positive (e - 4)
  have range : 10 ^ 4 ≤ scaled num den (e - 4) ∧ scaled num den (e - 4) ≤ 10 ^ 5 :=
    lead ▸ scaledRange above positive 4
  have places : -((4 - e).toNat : ℤ) = e - 4 := by omega
  rw [places,fixedTrimmed (signPointless s)]
  refine ⟨_,rfl,fixedFormed (by simp),fixedComplete (by simp),?_⟩
  apply fixedAbridges (by positivity) range.2 near (by omega)
  · rw [fixedRational]
    change _ * (10 : ℚ) ^ (0 - ((4 - e).toNat : ℤ)) = _
    rw [zero_sub,places]
  · simp only [Option.isSome_none,Bool.false_eq_true,false_iff]
    omega

theorem exponentialAbridgement (exponential : ¬(-5 ≤ e ∧ e < 5)) : Abridgement s (num / den) e
    (trimFraction ((signText s).toList ++ fixedDigits (leading 4 num den).1 4) ++
      'e' :: exponentDigits false (leading 4 num den).2) := by
  have near := scaledNearest num positive (e - 4)
  have range : 10 ^ 4 ≤ scaled num den (e - 4) ∧ scaled num den (e - 4) ≤ 10 ^ 5 :=
    lead ▸ scaledRange above positive 4
  obtain ⟨few,value⟩ : (leading 4 num den).1 ≤ 10 ^ 5 ∧ ((leading 4 num den).1 : ℚ) *
      10 ^ ((leading 4 num den).2 - 4) = scaled num den (e - 4) * 10 ^ (e - 4) :=
    lead ▸ leadingScaled above positive 4
  generalize leading 4 num den = c at few value
  have digits : (exponentPart c.2).digits ≠ [] := Nat.toDigits_ne_nil
  rw [fixedTrimmed (signPointless s),← exponentChars,List.append_assoc,← fixedExponent]
  refine ⟨_,rfl,fixedFormed (by simp [exponentFormed]),fixedComplete (by simpa using digits),?_⟩
  apply fixedAbridges (by positivity) few near (by omega)
  · rw [fixedRational,exponentPower rfl]
    exact value
  · simp only [Option.isSome_some,true_iff]
    omega

end Branches

theorem fiveDigitsAbridgement {x : Float} {s : Sign} {m : Nat} {e : ℤ} {positive : 0 < m}
    (unpacked : x.toModel.unpack = .finite s m e positive) :
    Abridgement s (m * 2 ^ e) (Int.log 10 (m * 2 ^ e : ℚ))
      (fiveDigits (Int.log 10 (m * 2 ^ e : ℚ)) x) := by
  obtain ⟨below,value⟩ := fractionValue m e
  have above : 0 < (fraction m e).1 := Nat.pos_of_ne_zero fun none => by
    have size : (0 : ℚ) < m * 2 ^ e := by positivity
    simp [← value,none] at size
  unfold fiveDigits
  rw [← value]
  split
  · rename_i positional
    rw [fixed,unpacked]
    exact positionalAbridgement above below s rfl positional
  · rename_i exponential
    rw [mantissaExponent?,unpacked]
    exact exponentialAbridgement above below s rfl exponential

theorem significantAbridges (log10 : Float → Float) {x : Float} {q : ℚ} (finite : rational? x = some q)
    (nonzero : q ≠ 0) (exponent : magnitudeExponent log10 x = Int.log 10 |q|) : ∃ negative n,
      decimal? (significantBy log10 x) = some (negative,n) ∧
      Abridges negative n q (Int.log 10 |q|) := by
  unfold rational? at finite
  cases unpacked : x.toModel.unpack with
  | infinity s => simp [unpacked] at finite
  | notANumber => simp [unpacked] at finite
  | zero s => simp [unpacked,nonzero.symm] at finite
  | finite s m e positive =>
    rw [unpacked] at finite
    obtain rfl := Option.some.inj finite
    have size : |(s.apply m : ℚ) * 2 ^ e| = m * 2 ^ e := by
      rw [applyMinus]
      split <;> simp [abs_mul]
    obtain ⟨n,text,formed,complete,abridged⟩ := fiveDigitsAbridgement unpacked
    obtain ⟨different,finite⟩ := finiteNonzero unpacked
    rw [size] at exponent ⊢
    refine ⟨minus s,n,?_,applyMinus s m e ▸ abridged⟩
    rw [significantBy,different,finite,exponent,text,signTextMinus]
    exact decimalWritten formed complete (minus s)

theorem carriedDigits : significantBy (fun _ => -5.000001737181402) (-9.99996e-6) = "-1e-5" ∧
    ∃ q, rational? (-9.99996e-6) = some q ∧ q ≠ 0 ∧
      magnitudeExponent (fun _ => -5.000001737181402) (-9.99996e-6) = Int.log 10 |q| ∧
      ∃ negative n, decimal? "-1e-5" = some (negative,n) ∧ Abridges negative n q (-6) := by
  have text : significantBy (fun _ => -5.000001737181402) (-9.99996e-6) = "-1e-5" := by decide
  have value : rational? (-9.99996e-6) =
      some (((-5902934491754642 : ℤ) : ℚ) * (2 : ℚ) ^ (-69 : ℤ)) := rfl
  have size : (-6 : ℤ) = Int.log 10 |((-5902934491754642 : ℤ) : ℚ) * (2 : ℚ) ^ (-69 : ℤ)| := by
    apply logOfBounds (by decide) <;> norm_num [abs_mul]
  have nonzero : ((-5902934491754642 : ℤ) : ℚ) * (2 : ℚ) ^ (-69 : ℤ) ≠ 0 := by norm_num
  have exponent : magnitudeExponent (fun _ => -5.000001737181402) (-9.99996e-6) = -6 := by decide
  have abridged := significantAbridges _ value nonzero (exponent.trans size)
  rw [text,← size] at abridged
  exact ⟨text,_,value,nonzero,exponent.trans size,abridged⟩

end ArrayCalc.Number
