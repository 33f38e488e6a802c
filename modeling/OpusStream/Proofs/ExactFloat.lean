import Mathlib

/-!
# Exact binary64 quotients

A significand that fills its 53 bits is packed and unpacked without change, and a longer one that
ends in zeros is rounded to it without loss. So an integer below `2 ^ 53` is represented exactly,
and so is its quotient by a power of two.
-/

namespace OpusStream
namespace Number

open Float.Model Float.Model.UnpackedFloat

/-- The number that a finite binary64 number stands for. -/
def value? (x : Float) : Option ℚ :=
  match x.toModel.unpack with
  | .zero _ => some 0
  | .finite sign mantissa exponent _ => some (sign.apply mantissa * 2 ^ exponent)
  | .infinity _ => none
  | .notANumber => none

/-- A binary64 number `± significand * 2 ^ exponent` with all 53 bits of its significand. -/
structure Normal where
  sign : Sign
  significand : Nat
  exponent : Int
  significand_min : 2 ^ 52 ≤ significand
  significand_lt : significand < 2 ^ 53
  exponent_min : -1074 ≤ exponent
  exponent_max : exponent ≤ 971

namespace Normal

theorem significand_pos (x : Normal) : 0 < x.significand :=
  Nat.lt_of_lt_of_le (by decide) x.significand_min

def unpacked (x : Normal) : UnpackedFloat :=
  .finite x.sign x.significand x.exponent x.significand_pos

def float (x : Normal) : Float := ⟨.pack x.unpacked⟩

def value (x : Normal) : ℚ := x.sign.apply x.significand * 2 ^ x.exponent

@[simp] theorem log2_significand_mul (x : Normal) (zeros : Nat) :
    (x.significand * 2 ^ zeros).log2 = 52 + zeros := by
  have hlow := Nat.mul_le_mul_right (2 ^ zeros) x.significand_min
  have hhigh := Nat.mul_lt_mul_of_pos_right x.significand_lt (Nat.two_pow_pos zeros)
  rw [Nat.log2_eq_iff (Nat.mul_pos x.significand_pos (Nat.two_pow_pos zeros)).ne']
  rw [← Nat.pow_add] at hlow hhigh
  exact ⟨hlow, by rwa [show 52 + zeros + 1 = 53 + zeros by omega]⟩

@[simp] theorem log2_significand (x : Normal) : x.significand.log2 = 52 := by
  have h := x.log2_significand_mul 0
  rwa [Nat.pow_zero, Nat.mul_one] at h

theorem pack_unpacked (x : Normal) :
    UnpackedFloat.pack .binary64 x.unpacked =
      packComponents .binary64 x.sign (.ofNat 11 (x.exponent + 1075).toNat)
        (.ofNat 52 x.significand) := by
  have hbiased : x.exponent + ↑(Format.binary64.exponentBias) +
      ↑(Format.binary64.mantissaBitsWithoutImplicit) = x.exponent + 1075 := by
    simp only [Format.exponentBias]
    omega
  have hfits : ¬ 2 ^ Format.binary64.exponentBits ≤ (x.exponent + 1075).toNat + 1 := by
    have hmax := x.exponent_max
    simp only
    omega
  rw [unpacked, UnpackedFloat.pack, x.log2_significand, hbiased, if_neg hfits, if_pos (by rfl)]

theorem unpack_packComponents {spec : Format} {sign : Sign} {exponent : BitVec spec.exponentBits}
    {mantissa : BitVec spec.mantissaBitsWithoutImplicit} (hones : exponent ≠ -1#_)
    (hzero : exponent ≠ 0#_) :
    UnpackedFloat.unpack spec (packComponents spec sign exponent mantissa) =
      .finite sign (1#1 ++ mantissa).toNat
        (exponent.toNat - (spec.exponentBias + spec.mantissaBitsWithoutImplicit)) (by simp) := by
  simp only [UnpackedFloat.unpack, unpackExponent_packComponents, unpackMantissa_packComponents,
    unpackSign_packComponents, Sign.ofBitVec_toBitVec, if_neg hones, if_neg hzero]

@[simp] theorem toNat_one_append_significand (x : Normal) :
    (1#1 ++ BitVec.ofNat 52 x.significand).toNat = x.significand := by
  have hmin := x.significand_min
  have hlt := x.significand_lt
  have hrest : x.significand - 2 ^ 52 < 2 ^ 52 := by omega
  have hmod : x.significand % 2 ^ 52 = x.significand - 2 ^ 52 := by omega
  rw [BitVec.toNat_append, BitVec.toNat_ofNat, BitVec.toNat_ofNat, hmod,
    ← Nat.shiftLeft_add_eq_or_of_lt hrest]
  omega

@[simp] theorem unpack_float (x : Normal) : x.float.toModel.unpack = x.unpacked := by
  have hmin := x.exponent_min
  have hmax := x.exponent_max
  have hsmall : (x.exponent + 1075).toNat < 2 ^ 11 := by omega
  have hexponent : (BitVec.ofNat 11 (x.exponent + 1075).toNat).toNat = (x.exponent + 1075).toNat := by
    rw [BitVec.toNat_ofNat, Nat.mod_eq_of_lt hsmall]
  have hones : BitVec.ofNat 11 (x.exponent + 1075).toNat ≠ -1#11 := by
    rw [← BitVec.toNat_ne_iff_ne, hexponent]
    simp only [BitVec.toNat_neg, BitVec.toNat_ofNat]
    omega
  have hzero : BitVec.ofNat 11 (x.exponent + 1075).toNat ≠ 0#11 := by
    rw [← BitVec.toNat_ne_iff_ne, hexponent]
    simp only [BitVec.toNat_ofNat]
    omega
  rw [float, Float.Model.unpack, Float.Model.pack, UInt64.toBitVec_ofBitVec, x.pack_unpacked,
    unpack_packComponents hones hzero, unpacked]
  congr 1
  · exact x.toNat_one_append_significand
  · rw [hexponent]
    simp only [Format.exponentBias]
    omega

@[simp] theorem value?_float (x : Normal) : value? x.float = some x.value := by
  rw [value?, x.unpack_float]
  rfl

@[simp] theorem shiftRight_exact (mantissa zeros : Nat) :
    (⟨mantissa * 2 ^ zeros, false, false⟩ : ExtendedMantissa) >>> zeros =
      ⟨mantissa, false, false⟩ := by
  induction zeros generalizing mantissa with
  | zero =>
    rw [Nat.pow_zero, Nat.mul_one]
    rfl
  | succ zeros ih =>
    calc (⟨mantissa * 2 ^ (zeros + 1), false, false⟩ : ExtendedMantissa) >>> (zeros + 1)
      _ = ((⟨mantissa * 2 * 2 ^ zeros, false, false⟩ : ExtendedMantissa) >>> zeros).shiftRightOne := by
        rw [Nat.pow_add_one', ← Nat.mul_assoc]
        rfl
      _ = ExtendedMantissa.shiftRightOne ⟨mantissa * 2, false, false⟩ := by rw [ih]
      _ = ⟨mantissa, false, false⟩ := by simp [ExtendedMantissa.shiftRightOne]

theorem targetExponent_eq (x : Normal) (zeros : Nat) :
    Format.binary64.targetExponent
      (totalExponent (x.significand * 2 ^ zeros) (x.exponent - zeros)) = x.exponent := by
  have hmin := x.exponent_min
  rw [totalExponent, x.log2_significand_mul]
  simp only [Format.targetExponent, Format.minExponent, Format.mantissaBits]
  omega

theorem shiftToTargetExponent_eq (x : Normal) (zeros : Nat) :
    shiftToTargetExponent .binary64 (x.significand * 2 ^ zeros) (x.exponent - zeros) .exact =
      (⟨x.significand, false, false⟩, x.exponent) := by
  have hshift : (x.exponent - (x.exponent - zeros)).toNat = zeros := by omega
  have hexponent : x.exponent - zeros + zeros = x.exponent := by omega
  rw [shiftToTargetExponent, x.targetExponent_eq, shiftToExponent, hshift, hexponent]
  exact congrArg (·, x.exponent) (shiftRight_exact _ _)

theorem roundWithAccuracy_eq (x : Normal) (zeros : Nat) :
    roundWithAccuracy .binary64 x.sign (x.significand * 2 ^ zeros) (x.exponent - zeros) .exact =
      x.unpacked := by
  have hagain := x.shiftToTargetExponent_eq 0
  rw [Nat.pow_zero, Nat.mul_one, Int.natCast_zero, Int.sub_zero] at hagain
  simp only [roundWithAccuracy, x.shiftToTargetExponent_eq, ExtendedMantissa.roundedMantissa,
    ExtendedMantissa.accuracy, Accuracy.roundToNearestEven, hagain, dif_neg x.significand_pos.ne']
  rfl

def ofNat (n : Nat) (hpos : 0 < n) (hlt : n < 2 ^ 53) : Normal where
  sign := .positive
  significand := n * 2 ^ (52 - n.log2)
  exponent := n.log2 - 52
  significand_min := by
    have hlog : n.log2 < 53 := (Nat.log2_lt hpos.ne').mpr hlt
    calc 2 ^ 52 = 2 ^ n.log2 * 2 ^ (52 - n.log2) := by
          rw [← Nat.pow_add, Nat.add_sub_cancel' (by omega)]
      _ ≤ n * 2 ^ (52 - n.log2) := Nat.mul_le_mul_right _ (Nat.log2_self_le hpos.ne')
  significand_lt := by
    have hlog : n.log2 < 53 := (Nat.log2_lt hpos.ne').mpr hlt
    calc n * 2 ^ (52 - n.log2) < 2 ^ (n.log2 + 1) * 2 ^ (52 - n.log2) :=
          Nat.mul_lt_mul_of_pos_right Nat.lt_log2_self (Nat.two_pow_pos _)
      _ = 2 ^ 53 := by rw [← Nat.pow_add, show n.log2 + 1 + (52 - n.log2) = 53 by omega]
  exponent_min := by omega
  exponent_max := by
    have hlog : n.log2 < 53 := (Nat.log2_lt hpos.ne').mpr hlt
    omega

@[simp] theorem ofNat_significand {n : Nat} (hpos : 0 < n) (hlt : n < 2 ^ 53) :
    (ofNat n hpos hlt).significand = n * 2 ^ (52 - n.log2) := rfl

@[simp] theorem ofNat_exponent {n : Nat} (hpos : 0 < n) (hlt : n < 2 ^ 53) :
    (ofNat n hpos hlt).exponent = n.log2 - 52 := rfl

@[simp] theorem value_ofNat {n : Nat} (hpos : 0 < n) (hlt : n < 2 ^ 53) : (ofNat n hpos hlt).value = n := by
  have hlog : n.log2 < 53 := (Nat.log2_lt hpos.ne').mpr hlt
  have hcancel : ((52 - n.log2 : Nat) : Int) + (n.log2 - 52 : Int) = 0 := by omega
  calc (ofNat n hpos hlt).value
    _ = n * 2 ^ (52 - n.log2) * (2 : ℚ) ^ (n.log2 - 52 : Int) := by
      rw [value, ofNat, Sign.apply]
      push_cast
      rfl
    _ = n * (2 : ℚ) ^ (((52 - n.log2 : Nat) : Int) + (n.log2 - 52 : Int)) := by
      rw [zpow_add₀ two_ne_zero, zpow_natCast, mul_assoc]
    _ = n := by rw [hcancel, zpow_zero, mul_one]

def one : Normal := ofNat 1 (by decide) (by decide)

theorem round_ofNat {n : Nat} (hpos : 0 < n) (hlt : n < 2 ^ 53) :
    UnpackedFloat.round .binary64 .positive n 0 = (ofNat n hpos hlt).unpacked := by
  have hlog : n.log2 < 53 := (Nat.log2_lt hpos.ne').mpr hlt
  have htarget : Format.binary64.targetExponent (totalExponent n 0) = n.log2 - 52 := by
    simp only [Format.targetExponent, totalExponent, Format.minExponent, Format.mantissaBits]
    omega
  have hshift : (0 - ((n.log2 : Int) - 52)).toNat = 52 - n.log2 := by omega
  have hexponent : (0 : Int) - (52 - n.log2 : Nat) = n.log2 - 52 := by omega
  have hround := (ofNat n hpos hlt).roundWithAccuracy_eq 0
  rw [Nat.pow_zero, Nat.mul_one, Int.natCast_zero, Int.sub_zero] at hround
  rw [← hround, UnpackedFloat.round, htarget, decreaseExponent, hshift, hexponent, Nat.shiftLeft_eq]
  rfl

theorem toFloat_eq {n : Nat} (hpos : 0 < n) (hlt : n < 2 ^ 53) :
    n.toUInt64.toFloat = (ofNat n hpos hlt).float := by
  have hnat : n.toUInt64.toNat = n := UInt64.toNat_ofNat_of_lt (Nat.lt_trans hlt (by decide))
  have hcompare : compare (n : Int) 0 = .gt := Int.compare_eq_gt.mpr (Int.natCast_pos.mpr hpos)
  rw [UInt64.toFloat, Float.Model.ofUInt64, UnpackedFloat.ofUInt64, hnat, UnpackedFloat.ofNat,
    UnpackedFloat.ofInt, UnpackedFloat.normalize, hcompare]
  exact congrArg (Float.ofModel <| .pack ·) (round_ofNat hpos hlt)

@[simp] theorem float_mul_one (x : Normal) : x.float * one.float = x.float := by
  have hround := x.roundWithAccuracy_eq 52
  have hsign : x.sign * Sign.positive = x.sign := by cases x.sign <;> rfl
  calc x.float * one.float
    _ = ⟨.pack (UnpackedFloat.mul .binary64 x.float.toModel.unpack one.float.toModel.unpack)⟩ := rfl
    _ = ⟨.pack (roundWithAccuracy .binary64 (x.sign * Sign.positive) (x.significand * 2 ^ 52)
          (x.exponent - (52 : Nat)) .exact)⟩ := by
      rw [x.unpack_float, one.unpack_float]
      rfl
    _ = x.float := by
      rw [hsign, hround]
      rfl

theorem float_ofNat {n : Nat} (hpos : 0 < n) (hlt : n < 2 ^ 53) :
    Float.ofNat n = (ofNat n hpos hlt).float := by
  have hone : Float.exactlyRepresentablePowersOfTen[0] = one.float := by decide +kernel
  calc Float.ofNat n
    _ = n.toUInt64.toFloat * Float.exactlyRepresentablePowersOfTen[0] := by
      rw [Float.ofNat]
      exact dif_pos ⟨hlt, by decide⟩
    _ = (ofNat n hpos hlt).float := by rw [toFloat_eq hpos hlt, hone, float_mul_one]

def neg (x : Normal) : Normal := { x with sign := -x.sign }

theorem float_neg (x : Normal) : x.float.neg = x.neg.float := by
  calc x.float.neg
    _ = ⟨.pack x.float.toModel.unpack.neg⟩ := rfl
    _ = x.neg.float := by
      rw [x.unpack_float]
      rfl

@[simp] theorem value_neg (x : Normal) : x.neg.value = -x.value := by
  rw [value, value, neg]
  cases x.sign with
  | positive => simp [Sign.apply]
  | negative => simp [Sign.apply]

def halve (x : Normal) (times : Nat) (h : -1074 ≤ x.exponent - times) : Normal :=
  { x with
    exponent := x.exponent - times
    exponent_min := h
    exponent_max := by have := x.exponent_max; omega }

/-- One more zero than needed is shifted in, and nothing remains. -/
theorem divCore_eq (x : Normal) {times : Nat} (h : -1074 < x.exponent - times) :
    divCore .binary64 x.significand x.exponent (2 ^ 52) (times - 52) =
      (x.significand * 2 ^ 1, x.exponent - times - (1 : Nat), .exact) := by
  have htarget : min (x.exponent - (times - 52)) (Format.binary64.targetExponent
      (totalExponent x.significand x.exponent - totalExponent (2 ^ 52) (times - 52))) =
      x.exponent - times - (1 : Nat) := by
    rw [totalExponent, totalExponent, x.log2_significand, Nat.log2_two_pow]
    simp only [Format.targetExponent, Format.minExponent, Format.mantissaBits]
    omega
  have hshift : (x.exponent - (times - 52) - (x.exponent - times - (1 : Nat))).toNat = 53 := by omega
  have hsplit : x.significand * 2 ^ 53 = x.significand * 2 ^ 1 * 2 ^ 52 := by omega
  rw [divCore, htarget, hshift, Nat.shiftLeft_eq, hsplit, Nat.mul_div_cancel _ (by decide),
    Nat.mul_mod_left]
  rfl

theorem float_div (x : Normal) {times : Nat} (h : -1074 < x.exponent - times) (hlt : times < 53) :
    x.float / Float.ofNat (2 ^ times) = (x.halve times h.le).float := by
  have hpos : 0 < 2 ^ times := Nat.two_pow_pos times
  have hfits : 2 ^ times < 2 ^ 53 := Nat.pow_lt_pow_right (by decide) hlt
  have hsignificand : (ofNat (2 ^ times) hpos hfits).significand = 2 ^ 52 := by
    rw [ofNat_significand, Nat.log2_two_pow, ← Nat.pow_add, Nat.add_sub_cancel' (by omega)]
  have hexponent : (ofNat (2 ^ times) hpos hfits).exponent = times - 52 := by
    rw [ofNat_exponent, Nat.log2_two_pow]
  have hsign : x.sign / Sign.positive = x.sign := by cases x.sign <;> rfl
  have hround := (x.halve times h.le).roundWithAccuracy_eq 1
  calc x.float / Float.ofNat (2 ^ times)
    _ = ⟨.pack (UnpackedFloat.div .binary64 x.unpacked (ofNat (2 ^ times) hpos hfits).unpacked)⟩ := by
      rw [float_ofNat hpos hfits, ← unpack_float, ← unpack_float]
      rfl
    _ = ⟨.pack (roundWithAccuracy .binary64 (x.sign / Sign.positive) (x.significand * 2 ^ 1)
          (x.exponent - times - (1 : Nat)) .exact)⟩ := by
      rw [unpacked, unpacked, UnpackedFloat.div, hsignificand, hexponent, x.divCore_eq h]
      rfl
    _ = (x.halve times h.le).float := by
      rw [hsign, float, ← hround]
      rfl

@[simp] theorem value_halve (x : Normal) {times : Nat} (h : -1074 ≤ x.exponent - times) :
    (x.halve times h).value = x.value / 2 ^ times := by
  rw [value, value, halve, zpow_sub₀ two_ne_zero, zpow_natCast, mul_div_assoc]

theorem exists_float_ofInt {n : Int} (hne : n ≠ 0) (hlt : n.natAbs < 2 ^ 53) :
    ∃ x : Normal, Float.ofInt n = x.float ∧ x.value = n ∧ -52 ≤ x.exponent := by
  have hmin {m : Nat} (hpos : 0 < m) (hfits : m < 2 ^ 53) :
      -52 ≤ (ofNat m hpos hfits).exponent := by
    rw [ofNat_exponent]
    omega
  cases n with
  | ofNat m =>
    have hpos : 0 < m := Nat.pos_of_ne_zero fun h => hne (congrArg Int.ofNat h)
    exact ⟨ofNat m hpos hlt, float_ofNat hpos hlt, value_ofNat hpos hlt, hmin hpos hlt⟩
  | negSucc m =>
    have hpos : 0 < m + 1 := Nat.succ_pos m
    refine ⟨(ofNat (m + 1) hpos hlt).neg, ?_, ?_, hmin hpos hlt⟩
    · rw [← float_neg, ← float_ofNat]
      rfl
    · rw [value_neg, value_ofNat, Int.cast_negSucc]

end Normal

@[simp] theorem unpack_pack_zero (sign : Sign) :
    (Float.Model.pack (.zero sign)).unpack = .zero sign :=
  unpack_packedZero

@[simp] theorem unpack_ofInt_zero : (Float.ofInt 0).toModel.unpack = .zero .positive := by
  have hpacked : Float.ofInt 0 = ⟨.pack (.zero .positive)⟩ := by decide +kernel
  rw [hpacked, unpack_pack_zero]

@[simp] theorem value?_zero_div (x : Normal) : value? (Float.ofInt 0 / x.float) = some 0 := by
  calc value? (Float.ofInt 0 / x.float)
    _ = value? ⟨.pack (UnpackedFloat.div .binary64 (Float.ofInt 0).toModel.unpack
          x.float.toModel.unpack)⟩ := rfl
    _ = value? ⟨.pack (.zero (.positive / x.sign))⟩ := by
      rw [unpack_ofInt_zero, x.unpack_float]
      rfl
    _ = some 0 := by rw [value?, unpack_pack_zero]

/-- The quotient of an integer by a power of two is not rounded. -/
theorem value?_ofInt_div {n : Int} {times : Nat} (hn : n.natAbs < 2 ^ 53) (htimes : times < 53) :
    value? (Float.ofInt n / Float.ofNat (2 ^ times)) = some ((n : ℚ) / 2 ^ times) := by
  by_cases hzero : n = 0
  · have hpos : 0 < 2 ^ times := Nat.two_pow_pos times
    have hfits : 2 ^ times < 2 ^ 53 := Nat.pow_lt_pow_right (by decide) htimes
    rw [hzero, Normal.float_ofNat hpos hfits, value?_zero_div, Int.cast_zero, zero_div]
  · obtain ⟨x, hfloat, hvalue, hmin⟩ := Normal.exists_float_ofInt hzero hn
    have hexponent : -1074 < x.exponent - times := by omega
    rw [hfloat, x.float_div hexponent htimes, Normal.value?_float, x.value_halve, hvalue]

example : value? (Float.ofInt (-384) / 256) = some (-3 / 2) := by decide +kernel

theorem unpack_of_pos {x : Float} (h : 0 < x) :
    x.toModel.unpack = .infinity .positive ∨ ∃ significand exponent hpos,
      x.toModel.unpack = .finite .positive significand exponent hpos := by
  have hlt : (UnpackedFloat.zero .positive).lt x.toModel.unpack = true := by
    rw [← unpack_ofInt_zero]
    exact of_decide_eq_true h
  generalize x.toModel.unpack = unpacked at hlt ⊢
  cases unpacked with
  | notANumber => cases hlt
  | zero sign => cases hlt
  | infinity sign =>
    cases sign with
    | positive => exact .inl rfl
    | negative => cases hlt
  | finite sign significand exponent hpos =>
    cases sign with
    | positive => exact .inr ⟨significand, exponent, hpos, rfl⟩
    | negative => cases hlt

theorem ofInt_zero_div {x : Float} (h : 0 < x) : Float.ofInt 0 / x = 0 := by
  have hquotient : Float.ofInt 0 / x =
      ⟨.pack (UnpackedFloat.div .binary64 (.zero .positive) x.toModel.unpack)⟩ := by
    rw [← unpack_ofInt_zero]
    rfl
  have hzero : (0 : Float) = ⟨.pack (.zero .positive)⟩ := by decide +kernel
  rw [hquotient, hzero]
  rcases unpack_of_pos h with hx | ⟨significand, exponent, hpos, hx⟩
  · rw [hx]
    rfl
  · rw [hx]
    rfl

end Number
end OpusStream
