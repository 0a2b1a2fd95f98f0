import ArrayCalc.Number.Significant
import ArrayCalc.Proofs.ExactValues
import ArrayCalc.Proofs.NumeralTexts
import Mathlib.Data.List.DropRight
/-! Decimals written out and read again. A text with an optional minus sign is read as a numeral, whose
digits and places give the exact value. Zeros that end the fraction do not change the value. -/
namespace ArrayCalc

namespace Numeral

def isZero (c : Char) : Bool := c == '0'

def significant (n : Numeral) : List Char :=
  ((n.whole ++ n.fraction.getD []).dropWhile isZero).rdropWhile isZero

section Digits
variable {ds : List Char}

theorem natOfDigitsAppend (ds es : List Char) :
    natOfDigits (ds ++ es) = 10 ^ es.length * natOfDigits ds + natOfDigits es := by
  change Nat.ofDigitChars 10 (ds ++ es) 0 = _
  rw [Nat.ofDigitChars_append,Nat.ofDigitChars_eq_ofDigitChars_zero]
  rfl

theorem natOfDigitsZeros (k : Nat) : natOfDigits (List.replicate k '0') = 0 := by
  change Nat.ofDigitChars 10 (List.replicate k '0') 0 = 0
  rw [Nat.ofDigitChars_replicate_zero,Nat.mul_zero]

theorem natOfDigitsDigits (n : Nat) : natOfDigits (Number.digits n) = n :=
  Nat.ofDigitChars_ten_toDigits

theorem endingZeros (ds : List Char) :
    ∃ k, ds = ds.rdropWhile isZero ++ List.replicate k '0' := by
  have zeros : (ds.reverse.takeWhile isZero).reverse =
      List.replicate (ds.reverse.takeWhile isZero).length '0' := by
    refine List.eq_replicate_iff.mpr ⟨List.length_reverse,fun c member => ?_⟩
    have zero : isZero c = true := List.mem_takeWhile_imp (List.mem_reverse.mp member)
    exact eq_of_beq zero
  exists (ds.reverse.takeWhile isZero).length
  rw [← zeros,List.rdropWhile,← List.reverse_append,List.takeWhile_append_dropWhile,
    List.reverse_reverse]

theorem leadingZeros (ds : List Char) : natOfDigits (ds.dropWhile isZero) = natOfDigits ds := by
  induction ds with
  | nil => rfl
  | cons c ds ih =>
    by_cases zero : isZero c = true
    · obtain rfl : c = '0' := eq_of_beq zero
      rw [List.dropWhile_cons_of_pos zero,ih]
      rfl
    · rw [List.dropWhile_cons_of_neg zero]

theorem digitValue {c : Char} (digit : c.isDigit = true) :
    natOfDigits [c] < 10 ∧ (natOfDigits [c] = 0 → c = '0') := by
  have value : natOfDigits [c] = c.toNat - '0'.toNat := Nat.zero_add _
  have range : '0'.toNat ≤ c.toNat ∧ c.toNat ≤ '9'.toNat := by
    simpa [Char.isDigit,UInt32.le_iff_toNat_le] using digit
  rw [value]
  have zero : '0'.toNat = 48 := rfl
  have nine : '9'.toNat = 57 := rfl
  refine ⟨by omega,fun none => Char.toNat_inj.mp (by omega)⟩

theorem leadingDigit {front : List Char} {c : Char}
    (digits : ∀ d ∈ front ++ [c], d.isDigit = true)
    (first : ∀ d ∈ (front ++ [c]).head?, isZero d = false) :
    10 ^ front.length ≤ natOfDigits (front ++ [c]) := by
  have some : front ++ [c] ≠ [] := List.append_ne_nil_of_right_ne_nil front (List.cons_ne_nil c [])
  obtain ⟨d,ds,same⟩ := List.exists_cons_of_ne_nil some
  have length : front.length = ds.length := by simpa using congrArg List.length same
  rw [same] at digits first ⊢
  have value : natOfDigits [d] ≠ 0 := fun zero => by
    have some := first d rfl
    rw [(digitValue (digits d List.mem_cons_self)).2 zero] at some
    contradiction
  rw [length,← List.singleton_append,natOfDigitsAppend]
  exact (Nat.le_mul_of_pos_right _ (Nat.pos_of_ne_zero value)).trans (Nat.le_add_right ..)

theorem fewSignificant {k : Nat} (digits : ∀ c ∈ ds, c.isDigit = true)
    (few : natOfDigits ds ≤ 10 ^ (k + 1)) :
    ((ds.dropWhile isZero).rdropWhile isZero).length ≤ k + 1 := by
  rw [← leadingZeros] at few
  have digits : ∀ c ∈ ds.dropWhile isZero, c.isDigit = true := fun c member =>
    digits c ((List.dropWhile_suffix _).subset member)
  have first : ∀ c ∈ (ds.dropWhile isZero).head?, isZero c = false := fun c member => by
    have first := List.head?_dropWhile_not isZero ds
    rwa [member] at first
  generalize ds.dropWhile isZero = es at few digits first
  rcases List.eq_nil_or_concat' es with rfl | ⟨front,c,rfl⟩
  · simp
  · have least := leadingDigit digits first
    have short : front.length ≤ k + 1 :=
      (Nat.pow_le_pow_iff_right (by decide)).mp (least.trans few)
    rcases short.lt_or_eq with less | same
    · have shrinks := (List.rdropWhile_prefix isZero (front ++ [c])).length_le
      simp only [List.length_append,List.length_singleton] at shrinks
      omega
    · /- One digit too many is there only for the power of ten, and then the last one is zero. -/
      have power : natOfDigits (front ++ [c]) = 10 ^ (k + 1) := le_antisymm few (same ▸ least)
      obtain ⟨small,zero⟩ := digitValue (digits c (by simp))
      rw [natOfDigitsAppend,List.length_singleton,pow_one,pow_succ] at power
      obtain rfl := zero (by omega)
      rw [List.rdropWhile_concat_pos _ _ _ rfl,← same]
      exact (List.rdropWhile_prefix isZero front).length_le

end Digits

def trimmed (whole fraction : List Char) (exponent : Option ExponentPart) : Numeral :=
  ⟨whole,if fraction.rdropWhile isZero = [] then none else some (fraction.rdropWhile isZero),exponent⟩

section Trimming
variable {whole fraction : List Char} {exponent : Option ExponentPart}

@[simp] theorem trimmedFraction :
    (trimmed whole fraction exponent).fraction.getD [] = fraction.rdropWhile isZero := by
  unfold trimmed
  split
  · rename_i nothing
    exact nothing.symm
  · rfl

theorem trimmedChars : (trimmed whole fraction exponent).chars =
    whole ++ (if fraction.rdropWhile isZero = [] then [] else '.' :: fraction.rdropWhile isZero) ++
      ExponentPart.text exponent := by
  rw [charsText,trimmed]
  dsimp only
  split <;> rfl

theorem trimmedFormed (started : whole ≠ []) (digits : ∀ c ∈ whole ++ fraction, c.isDigit = true)
    (formed : ∀ x ∈ exponent, x.Formed) : (trimmed whole fraction exponent).Formed := by
  refine ⟨fun c member => digits c (List.mem_append_left _ member),?_,formed,.inl started⟩
  intro ds kept c member
  unfold trimmed at kept
  dsimp only at kept
  split at kept
  · cases kept
  · cases kept
    exact digits c (List.mem_append_right _ ((List.rdropWhile_prefix ..).subset member))

theorem trimmedEnds : ∀ ds ∈ (trimmed whole fraction exponent).fraction,
    ∃ d, ds.getLast? = some d ∧ d ≠ '0' := by
  intro ds kept
  unfold trimmed at kept
  dsimp only at kept
  split at kept
  · cases kept
  · rename_i some
    cases kept
    refine ⟨_,List.getLast?_eq_some_getLast some,fun zero => ?_⟩
    exact List.rdropWhile_last_not isZero fraction some (beq_iff_eq.mpr zero)

theorem trimmedZeros (whole fraction : List Char) : ∃ k,
    fraction.length = (fraction.rdropWhile isZero).length + k ∧
    natOfDigits (whole ++ fraction) = 10 ^ k * natOfDigits (whole ++ fraction.rdropWhile isZero) := by
  obtain ⟨k,zeros⟩ := endingZeros fraction
  refine ⟨k,?_,?_⟩
  · conv_lhs => rw [zeros,List.length_append,List.length_replicate]
  · conv_lhs => rw [zeros,← List.append_assoc,natOfDigitsAppend,natOfDigitsZeros,List.length_replicate]
    rfl

theorem trimmedRational : (trimmed whole fraction exponent).rational =
    natOfDigits (whole ++ fraction) *
      (10 : ℚ) ^ ((trimmed whole fraction exponent).power - fraction.length) := by
  obtain ⟨k,length,value⟩ := trimmedZeros whole fraction
  have places (p : ℤ) (l : Nat) : (10 : ℚ) ^ (p - l) = 10 ^ k * 10 ^ (p - (l + k : Nat)) := by
    rw [← zpow_natCast,← zpow_add₀ (by norm_num)]
    congr 1
    push_cast
    ring
  rw [rational,trimmedFraction,value,length,places]
  push_cast
  change (natOfDigits (whole ++ _) : ℚ) * _ = _
  ring

theorem trimmedSignificant {k : Nat} (digits : ∀ c ∈ whole ++ fraction, c.isDigit = true)
    (few : natOfDigits (whole ++ fraction) ≤ 10 ^ (k + 1)) :
    (trimmed whole fraction exponent).significant.length ≤ k + 1 := by
  obtain ⟨j,_,value⟩ := trimmedZeros whole fraction
  rw [significant,trimmedFraction]
  apply fewSignificant
  · intro c member
    exact digits c (((List.prefix_append_right_inj whole).mpr (List.rdropWhile_prefix ..)).subset member)
  · exact (Nat.le_mul_of_pos_left _ (by positivity)).trans (value ▸ few)

end Trimming
end Numeral

namespace Number
open Numeral (isZero natOfDigits trimmed)

theorem trimPoint {before ds : List Char} (pointless : '.' ∉ before) (pointless' : '.' ∉ ds) :
    trimFraction (before ++ '.' :: ds) =
      before ++ (if ds.rdropWhile isZero = [] then [] else '.' :: ds.rdropWhile isZero) := by
  have others : before.rdropWhile (· == '.') = before := by
    refine List.rdropWhile_eq_self_iff.mpr fun some point => pointless ?_
    exact eq_of_beq point ▸ List.getLast_mem some
  rw [trimFraction,if_pos (by simp),List.reverse_append,List.reverse_cons,List.append_assoc,
    List.singleton_append,List.rdropWhile]
  change (((ds.reverse ++ '.' :: before.reverse).dropWhile isZero).dropWhile (· == '.')).reverse = _
  have inside : ∀ c ∈ ds.reverse.dropWhile isZero, c ≠ '.' := by
    rintro c member rfl
    exact pointless' (List.mem_reverse.mp ((List.dropWhile_suffix _).subset member))
  rw [List.dropWhile_append]
  cases kept : ds.reverse.dropWhile isZero with
  | nil => simpa [isZero,List.rdropWhile] using others
  | cons c r =>
    have other := inside c (kept ▸ List.mem_cons_self)
    simp [other]

def padded (c places : Nat) : List Char :=
  List.replicate (places + 1 - (digits c).length) '0' ++ digits c

section Padding
variable {c places : Nat}

theorem paddedLength : places < (padded c places).length := by
  simp only [padded,List.length_append,List.length_replicate]
  omega

theorem paddedDigits : ∀ d ∈ padded c places, d.isDigit = true := by
  intro d member
  rcases List.mem_append.mp member with zero | digit
  · rw [List.eq_of_mem_replicate zero]
    rfl
  · exact Nat.isDigit_of_mem_toDigits (by decide) (by decide) digit

theorem paddedValue : natOfDigits (padded c places) = c := by
  rw [padded,Numeral.natOfDigitsAppend,Numeral.natOfDigitsZeros,Numeral.natOfDigitsDigits]
  omega

def fixedNumeral (c places : Nat) (exponent : Option ExponentPart) : Numeral :=
  trimmed ((padded c places).take ((padded c places).length - places))
    ((padded c places).drop ((padded c places).length - places)) exponent

theorem fixedStarts : (padded c places).take ((padded c places).length - places) ≠ [] := by
  have longer : places < (padded c places).length := paddedLength
  apply List.ne_nil_of_length_pos
  rw [List.length_take]
  omega

theorem fixedFormed {exponent : Option ExponentPart} (formed : ∀ x ∈ exponent, x.Formed) :
    (fixedNumeral c places exponent).Formed := by
  refine Numeral.trimmedFormed fixedStarts ?_ formed
  rw [List.take_append_drop]
  exact paddedDigits

theorem fixedComplete {exponent : Option ExponentPart} (digits : ∀ x ∈ exponent, x.digits ≠ []) :
    (fixedNumeral c places exponent).Complete :=
  ⟨.inl fixedStarts,digits⟩

theorem fixedExponent (part : ExponentPart) : (fixedNumeral c places (some part)).chars =
    (fixedNumeral c places none).chars ++ part.chars := by
  simp [fixedNumeral,Numeral.trimmedChars,ExponentPart.text]

theorem fixedRational (exponent : Option ExponentPart) : (fixedNumeral c places exponent).rational =
    c * (10 : ℚ) ^ ((fixedNumeral c places exponent).power - places) := by
  have longer : places < (padded c places).length := paddedLength
  have fraction : (padded c places).length - ((padded c places).length - places) = places := by omega
  rw [fixedNumeral,Numeral.trimmedRational,List.take_append_drop,paddedValue,List.length_drop,fraction]

theorem fixedSignificant {k : Nat} (few : c ≤ 10 ^ (k + 1)) (exponent : Option ExponentPart) :
    (fixedNumeral c places exponent).significant.length ≤ k + 1 := by
  apply Numeral.trimmedSignificant
  · rw [List.take_append_drop]
    exact paddedDigits
  · rw [List.take_append_drop,paddedValue]
    exact few

theorem fixedTrimmed {before : List Char} (pointless : '.' ∉ before) :
    trimFraction (before ++ fixedDigits c places) = before ++ (fixedNumeral c places none).chars := by
  have digits : '.' ∉ padded c places := fun point => by
    have digit := paddedDigits _ point
    contradiction
  rw [fixedNumeral,Numeral.trimmedChars]
  by_cases none : places = 0
  · subst none
    have fixed : fixedDigits c 0 = padded c 0 := rfl
    rw [fixed,trimFraction,if_neg (by simp [pointless,digits])]
    simp [ExponentPart.text]
  · have fixed : fixedDigits c places = (padded c places).take ((padded c places).length - places) ++
        '.' :: (padded c places).drop ((padded c places).length - places) := if_neg none
    have first : '.' ∉ (padded c places).take ((padded c places).length - places) :=
      fun point => digits (List.mem_of_mem_take point)
    have second : '.' ∉ (padded c places).drop ((padded c places).length - places) :=
      fun point => digits (List.mem_of_mem_drop point)
    rw [fixed,← List.append_assoc,trimPoint (by simp [pointless,first]) second]
    simp [ExponentPart.text]

end Padding

def exponentPart (e : ℤ) : ExponentPart := ⟨'e',if e < 0 then some '-' else none,digits e.natAbs⟩

theorem exponentChars (e : ℤ) : (exponentPart e).chars = 'e' :: exponentDigits false e := by
  unfold exponentPart ExponentPart.chars exponentDigits
  dsimp only
  split <;> rfl

theorem exponentFormed (e : ℤ) : (exponentPart e).Formed := by
  refine ⟨.inl rfl,?_,fun c member => Nat.isDigit_of_mem_toDigits (by decide) (by decide) member⟩
  unfold exponentPart
  dsimp only
  split <;> simp

theorem exponentPower {n : Numeral} {e : ℤ} (part : n.exponent = some (exponentPart e)) : n.power = e := by
  unfold Numeral.power
  by_cases negative : e < 0
  · simp only [part,exponentPart,Numeral.natOfDigitsDigits,if_pos negative,if_true]
    omega
  · simp only [part,exponentPart,Numeral.natOfDigitsDigits,if_neg negative]
    simp
    omega

end Number

def decimal? (text : String) : Option (Bool × Numeral) :=
  let negative := text.toList.head? == some '-'
  let cs := if negative then text.toList.tail else text.toList
  if (Numeral.read cs).chars = cs ∧ (Numeral.read cs).isComplete then some (negative,Numeral.read cs)
  else none

theorem decimalWritten {n : Numeral} (formed : n.Formed) (complete : n.Complete) (negative : Bool) :
    decimal? (String.ofList ((if negative then ['-'] else []) ++ n.chars)) = some (negative,n) := by
  have read : Numeral.read n.chars = n := by
    simpa using @Numeral.readWritten n formed [] (by simp)
  have whole := n.completeIff.mpr complete
  cases negative with
  | true => simp [decimal?,read,whole]
  | false =>
    obtain ⟨c,w,chars,starts⟩ := formed.starts
    have unsigned : c ≠ '-' := by
      rintro rfl
      simp at starts
    have head : n.chars.head? ≠ some '-' := by simp [chars,unsigned]
    simp [decimal?,read,whole,head]

end ArrayCalc
