import Mathlib
import Ringtone.Proofs.Range

/-!
# The machine's floats

The machine's float is a word of sign, exponent and fraction, and its arithmetic works on these:
digits are shifted until they reach down to the right place, and what was cut off is known only as
whether there was a half and whether there was anything else. That is enough to round as the grid of
`Ringtone.Number.Rounding` does. So quotients of floats are exact quotients rounded to the grid,
whole numbers of up to 53 bits are floats as they are, and nothing times a number is nothing.
-/

namespace Ringtone.Number

open Float.Model Float.Model.UnpackedFloat

/-! ## Words and their fields -/

/-- Whether a sign is the minus sign. -/
def isMinus : Sign → Bool
  | .negative => true
  | .positive => false

/-- The number that sign, digits and exponent stand for. -/
def ofUnpacked : UnpackedFloat → Binary64
  | .infinity sign => .infinite (isMinus sign)
  | .notANumber => .nan
  | .zero sign => .zero (isMinus sign)
  | .finite sign digits exponent _ => .finite ((sign.apply digits : ℤ) * pow2 exponent)

theorem ite_isMinus (sign : Sign) (digits : ℕ) (k : ℤ) :
    (if isMinus sign = true then -((digits : ℚ) * pow2 k) else digits * pow2 k) =
      (sign.apply digits : ℤ) * pow2 k := by
  cases sign with
  | positive => exact if_neg Bool.false_ne_true
  | negative =>
    simp only [isMinus, if_true, Sign.apply]
    push_cast
    ring

namespace Binary64

/-- The number that the fields of a word stand for. -/
def ofFields (negative : Bool) (exponent fraction : ℕ) : Binary64 :=
  if exponent + 1 = exponentCount then (if fraction = 0 then .infinite negative else .nan)
  else if exponent = 0 ∧ fraction = 0 then zero negative
  else
    let value : ℚ :=
      if exponent = 0 then (fraction : ℚ) * pow2 lowestPlace
      else ((fractionCount + fraction : ℕ) : ℚ) * pow2 (lowestPlace + exponent - 1)
    .finite (if negative then -value else value)

/-- The fields of a word are its sign, eleven bits and 52 bits. -/
theorem ofBits_eq_ofFields (bits : UInt64) :
    ofBits bits = ofFields (decide (signWord ≤ bits.toNat))
      (bits.toNat / fractionCount % exponentCount) (bits.toNat % fractionCount) := by
  simp only [ofBits, ofFields, decide_eq_true_eq]

theorem ofFields_subnormal (sign : Sign) {fraction : ℕ} (h : fraction ≠ 0) :
    ofFields (isMinus sign) 0 fraction =
      .finite ((sign.apply fraction : ℤ) * pow2 lowestPlace) := by
  rw [ofFields, if_neg (by decide), if_neg fun hzero => h hzero.2]
  dsimp only
  rw [if_pos rfl, ite_isMinus]

theorem ofFields_normal (sign : Sign) {exponent : ℕ} (fraction : ℕ) (hzero : exponent ≠ 0)
    (hlast : exponent + 1 ≠ exponentCount) :
    ofFields (isMinus sign) exponent fraction =
      .finite ((sign.apply (fractionCount + fraction : ℕ) : ℤ) *
        pow2 (lowestPlace + exponent - 1)) := by
  rw [ofFields, if_neg hlast, if_neg fun h => hzero h.1]
  dsimp only
  rw [if_neg hzero, ite_isMinus]

end Binary64

section Fields

variable (word : BitVec Format.binary64.numBits)

theorem toNat_unpackMantissa :
    (unpackMantissa word).toNat = word.toNat % Binary64.fractionCount := by
  rw [unpackMantissa, BitVec.toNat_cast, BitVec.extractLsb_toNat, Nat.shiftRight_zero]
  rfl

theorem toNat_unpackExponent :
    (unpackExponent word).toNat =
      word.toNat / Binary64.fractionCount % Binary64.exponentCount := by
  rw [unpackExponent, BitVec.toNat_cast, BitVec.extractLsb_toNat, Nat.shiftRight_eq_div_pow]
  rfl

theorem isMinus_unpackSign :
    isMinus (Sign.ofBitVec (unpackSign word)) = decide (Binary64.signWord ≤ word.toNat) := by
  have hword : word.toNat < 2 * Binary64.signWord := word.isLt
  have hsign : (unpackSign word).toNat = word.toNat / Binary64.signWord := by
    rw [unpackSign, BitVec.toNat_cast, BitVec.extractLsb_toNat, Nat.shiftRight_eq_div_pow]
    exact Nat.mod_eq_of_lt (Nat.div_lt_of_lt_mul (by rw [mul_comm]; exact hword))
  rw [Sign.ofBitVec]
  by_cases h : Binary64.signWord ≤ word.toNat
  · have hone : word.toNat / Binary64.signWord ≠ 0 := (Nat.div_pos h (by decide)).ne'
    rw [if_neg fun hzero => hone (by rw [← hsign, hzero]; rfl), decide_eq_true h]
    rfl
  · have hzero : unpackSign word = 0#1 :=
      BitVec.eq_of_toNat_eq (hsign.trans (Nat.div_eq_of_lt (not_le.mp h)))
    rw [if_pos hzero, decide_eq_false h]
    rfl

theorem toNat_implicit_append (fraction : BitVec 52) :
    (1#1 ++ fraction).toNat = Binary64.fractionCount + fraction.toNat := by
  rw [BitVec.toNat_append, ← Nat.shiftLeft_add_eq_or_of_lt fraction.isLt]
  rfl

/-- The number of a word is that of its sign, digits and exponent. -/
theorem ofBits_eq_ofUnpacked :
    Binary64.ofBits ⟨word⟩ = ofUnpacked (UnpackedFloat.unpack Format.binary64 word) := by
  rw [Binary64.ofBits_eq_ofFields, UnpackedFloat.unpack]
  show Binary64.ofFields (decide (Binary64.signWord ≤ word.toNat))
    (word.toNat / Binary64.fractionCount % Binary64.exponentCount)
    (word.toNat % Binary64.fractionCount) = _
  rw [← isMinus_unpackSign, ← toNat_unpackExponent, ← toNat_unpackMantissa]
  generalize Sign.ofBitVec (unpackSign word) = sign
  generalize unpackExponent word = exponent
  dsimp only at exponent ⊢
  have hlast : exponent = -1#11 ↔ exponent.toNat + 1 = Binary64.exponentCount := by
    rw [← BitVec.toNat_inj]
    exact ⟨fun h => by rw [h]; rfl, fun h => Nat.succ_injective h⟩
  have hzero : exponent = 0#11 ↔ exponent.toNat = 0 := by rw [← BitVec.toNat_inj]; rfl
  have hwhole : unpackMantissa word = 0#52 ↔ (unpackMantissa word).toNat = 0 := by
    rw [← BitVec.toNat_inj]
    rfl
  by_cases hexponent : exponent = -1#11
  · rw [if_pos hexponent, Binary64.ofFields, if_pos (hlast.mp hexponent)]
    by_cases hfraction : unpackMantissa word = 0#52
    · rw [if_pos hfraction, if_pos (hwhole.mp hfraction)]
      rfl
    · rw [if_neg hfraction, if_neg (mt hwhole.mpr hfraction)]
      rfl
  rw [if_neg hexponent]
  by_cases hsmall : exponent = 0#11
  · rw [if_pos hsmall, hzero.mp hsmall]
    by_cases hfraction : unpackMantissa word = 0#52
    · rw [dif_pos hfraction, hwhole.mp hfraction]
      rfl
    · rw [dif_neg hfraction, Binary64.ofFields_subnormal _ (mt hwhole.mpr hfraction)]
      rfl
  · rw [if_neg hsmall, ofUnpacked, toNat_implicit_append,
      Binary64.ofFields_normal _ _ (mt hzero.mpr hsmall) (mt hlast.mpr hexponent)]
    congr 3
    rw [lowestPlace]
    show _ = (exponent.toNat : ℤ) - 1075
    omega

end Fields

theorem ofFloat_eq_ofUnpacked (x : Float) : Binary64.ofFloat x = ofUnpacked x.toModel.unpack :=
  ofBits_eq_ofUnpacked _

/-! ## Words of given fields -/

theorem ofBits_packComponents (sign : Sign) (exponent : BitVec 11) (fraction : BitVec 52) :
    Binary64.ofBits ⟨packComponents Format.binary64 sign exponent fraction⟩ =
      Binary64.ofFields (isMinus sign) exponent.toNat fraction.toNat := by
  have hfraction := fraction.isLt
  have hexponent := exponent.isLt
  have hword : (packComponents Format.binary64 sign exponent fraction).toNat =
      ((if isMinus sign then 1 else 0) * 2 ^ 11 + exponent.toNat) * 2 ^ 52 + fraction.toNat := by
    rw [packComponents, BitVec.toNat_append, BitVec.toNat_append,
      ← Nat.shiftLeft_add_eq_or_of_lt fraction.isLt, ← Nat.shiftLeft_add_eq_or_of_lt exponent.isLt,
      Nat.shiftLeft_eq, Nat.shiftLeft_eq]
    cases sign <;> rfl
  have hsign : decide (Binary64.signWord ≤
      (packComponents Format.binary64 sign exponent fraction).toNat) = isMinus sign := by
    rw [hword, Binary64.signWord, Binary64.fractionCount, Binary64.exponentCount]
    cases sign <;> simp [isMinus] <;> omega
  rw [Binary64.ofBits_eq_ofFields]
  show Binary64.ofFields (decide (Binary64.signWord ≤
      (packComponents Format.binary64 sign exponent fraction).toNat))
    ((packComponents Format.binary64 sign exponent fraction).toNat / Binary64.fractionCount %
      Binary64.exponentCount)
    ((packComponents Format.binary64 sign exponent fraction).toNat % Binary64.fractionCount) = _
  rw [hsign, hword]
  congr 1
  · rw [Binary64.fractionCount, Binary64.exponentCount]
    omega
  · rw [Binary64.fractionCount]
    omega

/-- Digits and exponent that a word has room for: all 53 bits, unless the exponent is the lowest. -/
structure Fits (digits : ℕ) (exponent : ℤ) : Prop where
  digits_lt : digits < 2 ^ 53
  normal : 2 ^ 52 ≤ digits ∨ exponent = lowestPlace
  lowestPlace_le : lowestPlace ≤ exponent
  exponent_le : exponent ≤ 971

theorem ofBits_pack {sign : Sign} {digits : ℕ} {exponent : ℤ} (hpos : 0 < digits)
    (h : Fits digits exponent) :
    Binary64.ofBits ⟨UnpackedFloat.pack Format.binary64 (.finite sign digits exponent hpos)⟩ =
      .finite ((sign.apply digits : ℤ) * pow2 exponent) := by
  obtain ⟨hdigits, hnormal, hlow, hhigh⟩ := h
  rw [lowestPlace] at hlow hnormal
  have hbiased : exponent + (Format.binary64.exponentBias : ℤ) +
      (Format.binary64.mantissaBitsWithoutImplicit : ℤ) = exponent + 1075 := by
    show exponent + 1023 + 52 = _
    ring
  rw [UnpackedFloat.pack]
  dsimp only
  rw [hbiased, if_neg (show ¬ 2 ^ 11 ≤ (exponent + 1075).toNat + 1 by omega)]
  by_cases hfull : 2 ^ 52 ≤ digits
  · have hlog : digits.log2 = 52 := (Nat.log2_eq_iff hpos.ne').mpr ⟨hfull, hdigits⟩
    rw [if_pos (show digits.log2 + 1 = Format.binary64.mantissaBits by rw [hlog]; rfl)]
    have hexponent : (BitVec.ofNat 11 (exponent + 1075).toNat).toNat = (exponent + 1075).toNat :=
      Nat.mod_eq_of_lt (by omega)
    have hfraction : Binary64.fractionCount + (BitVec.ofNat 52 digits).toNat = digits := by
      rw [Binary64.fractionCount, BitVec.toNat_ofNat]
      omega
    rw [ofBits_packComponents, hexponent, Binary64.ofFields_normal _ _ (by omega)
      (by rw [Binary64.exponentCount]; omega), lowestPlace]
    congr 2
    · exact congrArg _ (congrArg _ (congrArg _ hfraction))
    · congr 1
      omega
  · have hlog : digits.log2 < 52 := (Nat.log2_lt hpos.ne').mpr (not_le.mp hfull)
    rw [if_neg (show ¬ digits.log2 + 1 = Format.binary64.mantissaBits from
      fun hequal => hlog.ne (Nat.succ_injective (hequal.trans (Nat.add_comm 1 52))))]
    have hfraction : (BitVec.ofNat 52 digits).toNat = digits :=
      Nat.mod_eq_of_lt (not_le.mp hfull)
    have hsubnormal := Binary64.ofFields_subnormal sign hpos.ne'
    rw [ofBits_packComponents, hfraction, hnormal.resolve_left hfull]
    exact hsubnormal

/-! ## What is kept of digits that are cut off -/

/-- A number cut off behind the point, with what is known of the rest: whether there is a half, and
whether there is anything else. -/
def Describes (cut : ExtendedMantissa) (x : ℚ) : Prop :=
  match cut.roundBit, cut.stickyBit with
  | false, false => x = cut.mantissa
  | false, true => cut.mantissa < x ∧ x < cut.mantissa + 1 / 2
  | true, false => x = cut.mantissa + 1 / 2
  | true, true => cut.mantissa + 1 / 2 < x ∧ x < cut.mantissa + 1

variable {cut : ExtendedMantissa} {x : ℚ}

theorem Describes.bounds (h : Describes cut x) :
    (cut.mantissa : ℚ) ≤ x ∧ x < cut.mantissa + 1 := by
  obtain ⟨digits, half, more⟩ := cut
  cases half <;> cases more <;> simp only [Describes] at h <;> constructor <;> linarith

/-- The rest decides about the rounding. -/
theorem Describes.roundedMantissa (h : Describes cut x) : roundEven x = cut.roundedMantissa := by
  obtain ⟨digits, half, more⟩ := cut
  cases half <;> cases more <;> simp only [Describes] at h
  · show roundEven x = (digits : ℕ)
    exact roundEven_eq_of_abs_lt (by rw [abs_lt]; push_cast; constructor <;> linarith)
  · show roundEven x = (digits : ℕ)
    exact roundEven_eq_of_abs_lt (by rw [abs_lt]; push_cast; constructor <;> linarith)
  · show roundEven x = (digits + digits % 2 : ℕ)
    rw [h, ← Int.cast_natCast, roundEven_half]
    split_ifs <;> omega
  · show roundEven x = (digits + 1 : ℕ)
    exact roundEven_eq_of_abs_lt (by rw [abs_lt]; push_cast; constructor <;> linarith)

/-- Cutting off one binary place more. -/
theorem Describes.shiftRightOne (h : Describes cut x) : Describes cut.shiftRightOne (x / 2) := by
  obtain ⟨digits, half, more⟩ := cut
  have hdigits : (digits : ℚ) = 2 * (digits / 2 : ℕ) + (digits % 2 : ℕ) := by
    exact_mod_cast (Nat.div_add_mod digits 2).symm
  rcases Nat.mod_two_eq_zero_or_one digits with hbit | hbit <;> rw [hbit] at hdigits <;>
    cases half <;> cases more <;>
    simp only [Describes, ExtendedMantissa.shiftRightOne, hbit, bne_self_eq_false, Nat.reduceBNe,
      Bool.or_self, Bool.or_true, Bool.or_false] at h ⊢ <;>
    push_cast at hdigits <;> first | linarith | exact ⟨by linarith, by linarith⟩

theorem Describes.shiftRight (h : Describes cut x) (places : ℕ) :
    Describes (cut >>> places) (x / 2 ^ places) := by
  show Describes (Nat.repeat ExtendedMantissa.shiftRightOne places cut) _
  induction places with
  | zero => rwa [pow_zero, div_one]
  | succ places ih =>
    rw [pow_succ, ← div_div]
    exact ih.shiftRightOne

theorem describes_exact (digits : ℕ) :
    Describes (ExtendedMantissa.ofMantissaAndAccuracy digits .exact) digits := rfl

/-- A quotient cut off behind the point, with what the remainder tells of the rest. -/
theorem describes_quotient (m : ℕ) {d : ℕ} (hd : 0 < d) :
    Describes (ExtendedMantissa.ofMantissaAndAccuracy (m / d) (accuracyOfFraction (m % d) d))
      (m / d) := by
  have hdpos : (0 : ℚ) < d := by exact_mod_cast hd
  have hdivided : (m : ℚ) / d = (m / d : ℕ) + (m % d : ℕ) / d := by
    rw [div_eq_iff hdpos.ne', add_mul, div_mul_cancel₀ _ hdpos.ne', mul_comm]
    exact_mod_cast (Nat.div_add_mod m d).symm
  have hrest : ((m % d : ℕ) : ℚ) < d := by exact_mod_cast Nat.mod_lt m hd
  rw [accuracyOfFraction, hdivided]
  by_cases hzero : m % d = 0
  · rw [if_pos hzero, hzero, Nat.cast_zero, zero_div, add_zero]
    exact describes_exact _
  have hpos : (0 : ℚ) < (m % d : ℕ) := by exact_mod_cast Nat.pos_of_ne_zero hzero
  rw [if_neg hzero]
  rcases lt_trichotomy (2 * (m % d)) d with hbelow | hhalf | habove
  · have hcast : (2 : ℚ) * (m % d : ℕ) < d := by exact_mod_cast hbelow
    rw [compare_lt_iff_lt.mpr hbelow]
    refine ⟨lt_add_of_pos_right _ (div_pos hpos hdpos), add_lt_add_right ?_ _⟩
    rw [div_lt_div_iff₀ hdpos two_pos]
    linarith
  · have hcast : (2 : ℚ) * (m % d : ℕ) = d := by exact_mod_cast hhalf
    rw [compare_eq_iff_eq.mpr hhalf]
    refine congrArg _ ?_
    rw [div_eq_div_iff hdpos.ne' two_ne_zero]
    linarith
  · have hcast : (d : ℚ) < 2 * (m % d : ℕ) := by exact_mod_cast habove
    rw [compare_gt_iff_gt.mpr habove]
    refine ⟨add_lt_add_right ?_ _, add_lt_add_right ?_ _⟩
    · rw [div_lt_div_iff₀ two_pos hdpos]
      linarith
    · exact (div_lt_one hdpos).mpr hrest

/-! ## Rounding digits and exponent -/

theorem targetExponent_eq (k : ℤ) : Format.binary64.targetExponent k = max (k - 53) lowestPlace :=
  rfl

variable {digits : ℕ} {exponent : ℤ} {accuracy : Accuracy} {y : ℚ}

/-- The digits before the point give the size of a number. -/
theorem binade_mul_of_bounds (hpos : digits ≠ 0) (hlow : (digits : ℚ) ≤ y)
    (hhigh : y < digits + 1) : binade (y * pow2 exponent) = digits.log2 + exponent := by
  have hdigits : (0 : ℚ) < digits := by exact_mod_cast Nat.pos_of_ne_zero hpos
  have hne : y * pow2 exponent ≠ 0 := (mul_pos (hdigits.trans_le hlow) (pow2_pos _)).ne'
  have habs : |y * pow2 exponent| = y * pow2 exponent :=
    abs_of_pos (mul_pos (hdigits.trans_le hlow) (pow2_pos _))
  have hbelow : pow2 digits.log2 ≤ y := by
    refine le_trans ?_ hlow
    rw [pow2_natCast]
    exact_mod_cast Nat.log2_self_le hpos
  have habove : y < pow2 (digits.log2 + 1) := by
    refine hhigh.trans_le ?_
    rw [show (digits.log2 : ℤ) + 1 = (digits.log2 + 1 : ℕ) from rfl, pow2_natCast]
    exact_mod_cast Nat.lt_log2_self (n := digits)
  refine le_antisymm (Int.le_of_lt_add_one (binade_lt hne ?_)) (le_binade hne ?_)
  · rw [habs, add_right_comm, pow2_add]
    exact mul_lt_mul_of_pos_right habove (pow2_pos _)
  · rw [habs, pow2_add]
    exact mul_le_mul_of_nonneg_right hbelow (pow2_pos _).le

/-- Digits that reach down to the last place of a number tell that place. -/
theorem targetExponent_eq_lastPlace
    (h : Describes (ExtendedMantissa.ofMantissaAndAccuracy digits accuracy) y)
    (hexponent : exponent ≤ lastPlace (y * pow2 exponent)) :
    Format.binary64.targetExponent (totalExponent digits exponent) =
      lastPlace (y * pow2 exponent) := by
  have hbounds := h.bounds
  have hdigits : (ExtendedMantissa.ofMantissaAndAccuracy digits accuracy).mantissa = digits := by
    cases accuracy with
    | exact => rfl
    | inexact order => cases order <;> rfl
  rw [hdigits] at hbounds
  obtain ⟨hlow, hhigh⟩ := hbounds
  rw [targetExponent_eq, totalExponent]
  by_cases hzero : digits = 0
  · -- no digit is left before the point, so that the last place can only be the lowest
    rw [hzero, Nat.cast_zero] at hlow hhigh
    have hlowest : lastPlace (y * pow2 exponent) = lowestPlace := by
      rw [lastPlace]
      split_ifs with hne
      · rfl
      · have hsize : |y * pow2 exponent| < pow2 exponent := by
          rw [abs_of_nonneg (mul_nonneg hlow (pow2_pos _).le)]
          exact mul_lt_of_lt_one_left (pow2_pos _) (by linarith)
        have hbinade := binade_lt hne hsize
        rw [lastPlace, if_neg hne] at hexponent
        omega
    rw [hlowest] at hexponent ⊢
    rw [hzero, Nat.log2_zero]
    omega
  · have hdigits : (0 : ℚ) < digits := by exact_mod_cast Nat.pos_of_ne_zero hzero
    have hne : y * pow2 exponent ≠ 0 := (mul_pos (hdigits.trans_le hlow) (pow2_pos _)).ne'
    rw [lastPlace, if_neg hne, binade_mul_of_bounds hzero hlow hhigh]
    congr 1
    ring

/-- Digits that need no rounding are left as they are, or, when there is one bit too many, without
a last bit that is zero. -/
theorem shiftToTargetExponent_exact {k : ℤ} (hdigits : digits ≤ 2 ^ 53) (hk : lowestPlace ≤ k) :
    (digits < 2 ^ 53 → shiftToTargetExponent Format.binary64 digits k .exact =
      (⟨digits, false, false⟩, k)) ∧
    (digits = 2 ^ 53 → shiftToTargetExponent Format.binary64 digits k .exact =
      (⟨2 ^ 52, false, false⟩, k + 1)) := by
  constructor
  · intro hlt
    have hlog : digits.log2 ≤ 52 := by
      by_cases hzero : digits = 0
      · rw [hzero, Nat.log2_zero]
        exact Nat.zero_le _
      · exact Nat.lt_succ_iff.mp ((Nat.log2_lt hzero).mpr hlt)
    have hshift :
        (Format.binary64.targetExponent (totalExponent digits k) - k).toNat = 0 := by
      rw [targetExponent_eq, totalExponent]
      omega
    rw [shiftToTargetExponent, shiftToExponent, hshift]
    exact Prod.ext rfl (add_zero k)
  · rintro rfl
    have hshift :
        (Format.binary64.targetExponent (totalExponent (2 ^ 53) k) - k).toNat = 1 := by
      rw [targetExponent_eq, totalExponent, Nat.log2_two_pow]
      omega
    rw [shiftToTargetExponent, shiftToExponent, hshift]
    rfl

/-- The rounded number of units of the last place has 53 bits or is the next power of two. It has
all of them if the last place is not the lowest. -/
theorem roundEven_units (hx : 0 ≤ x) : roundEven (x / spacing x) ≤ 2 ^ 53 ∧
    (2 ^ 52 ≤ roundEven (x / spacing x) ∨ lastPlace x = lowestPlace) := by
  have hsize := (abs_lt.mp (abs_lt_spacing x)).2
  have hnear := abs_le.mp (abs_sub_roundEven_le (x / spacing x))
  have hunits : x / spacing x < 2 ^ 53 := (div_lt_iff₀ (spacing_pos x)).mpr hsize
  refine ⟨?_, ?_⟩
  · exact Int.lt_add_one_iff.mp (by exact_mod_cast (by linarith :
      (roundEven (x / spacing x) : ℚ) < 2 ^ 53 + 1))
  · refine or_iff_not_imp_right.mpr fun hplace => ?_
    have hne : x ≠ 0 := fun hzero => hplace (by rw [lastPlace, if_pos hzero])
    have hlast : lastPlace x = binade x - 52 := by
      rw [lastPlace, if_neg hne] at hplace ⊢
      omega
    have hfull : 2 ^ 52 ≤ x / spacing x := by
      rw [le_div_iff₀ (spacing_pos x), spacing, hlast]
      calc (2 : ℚ) ^ 52 * pow2 (binade x - 52) = pow2 ((52 : ℕ) + (binade x - 52)) := by
            rw [pow2_add, pow2_natCast]
        _ = pow2 (binade x) := by congr 1; push_cast; ring
        _ ≤ |x| := pow2_binade_le hne
        _ = x := abs_of_nonneg hx
    exact Int.lt_add_one_iff.mp (by exact_mod_cast (by linarith :
      (2 : ℚ) ^ 52 < roundEven (x / spacing x) + 1))

theorem ofBits_pack_zero (sign : Sign) :
    Binary64.ofBits ⟨UnpackedFloat.pack Format.binary64 (.zero sign)⟩ = .zero (isMinus sign) := by
  cases sign <;> decide +kernel

/-- Units of the last place, as the grid has them. -/
theorem fits_of_lt_overflow {units : ℕ} {place : ℤ} (hunits : units < 2 ^ 53)
    (hnormal : 2 ^ 52 ≤ units ∨ place = lowestPlace) (hplace : lowestPlace ≤ place)
    (h : units * pow2 place < Binary64.overflow) : Fits units place := by
  refine ⟨hunits, hnormal, hplace, ?_⟩
  rcases hnormal with hfull | rfl
  · have hsize : pow2 ((52 : ℕ) + place) < pow2 1024 := by
      refine lt_of_le_of_lt ?_ h
      rw [pow2_add, pow2_natCast]
      exact mul_le_mul_of_nonneg_right (by exact_mod_cast hfull) (pow2_pos _).le
    have := pow2_lt.mp hsize
    omega
  · decide

/-- Cut off down to the last place of a number, digits round to its units of that place. -/
theorem shiftToTargetExponent_units
    (h : Describes (ExtendedMantissa.ofMantissaAndAccuracy digits accuracy) y)
    (hexponent : exponent ≤ lastPlace (y * pow2 exponent)) :
    ∃ cut : ExtendedMantissa,
      shiftToTargetExponent Format.binary64 digits exponent accuracy =
        (cut, lastPlace (y * pow2 exponent)) ∧
      roundEven (y * pow2 exponent / spacing (y * pow2 exponent)) = cut.roundedMantissa := by
  have htarget := targetExponent_eq_lastPlace h hexponent
  obtain ⟨shift, hshift⟩ : ∃ shift : ℕ, lastPlace (y * pow2 exponent) = exponent + shift :=
    ⟨(lastPlace (y * pow2 exponent) - exponent).toNat, by omega⟩
  have hunits : y * pow2 exponent / spacing (y * pow2 exponent) = y / 2 ^ shift := by
    rw [spacing, hshift, pow2_add, pow2_natCast, mul_comm y, mul_div_mul_left _ _ (pow2_pos _).ne']
  refine ⟨ExtendedMantissa.ofMantissaAndAccuracy digits accuracy >>> shift, ?_, ?_⟩
  · rw [shiftToTargetExponent, shiftToExponent, htarget, hshift, add_sub_cancel_left,
      Int.toNat_natCast]
  · rw [hunits]
    exact (h.shiftRight shift).roundedMantissa

/-- Rounding digits and exponent is rounding to the grid. -/
theorem ofBits_pack_roundWithAccuracy
    (h : Describes (ExtendedMantissa.ofMantissaAndAccuracy digits accuracy) y)
    (hexponent : exponent ≤ lastPlace (y * pow2 exponent))
    (hrange : y * pow2 exponent < rangeLimit) :
    Binary64.ofBits ⟨UnpackedFloat.pack Format.binary64
        (roundWithAccuracy Format.binary64 .positive digits exponent accuracy)⟩ =
      .finite (nearest (y * pow2 exponent)) := by
  have hy : 0 ≤ y := (Nat.cast_nonneg _).trans h.bounds.1
  have hx : 0 ≤ y * pow2 exponent := mul_nonneg hy (pow2_pos _).le
  obtain ⟨cut, hfirst, hrounded⟩ := shiftToTargetExponent_units h hexponent
  generalize y * pow2 exponent = x at *
  rw [roundWithAccuracy, hfirst]
  dsimp only
  generalize cut.roundedMantissa = units at hrounded ⊢
  have hnearest : nearest x = units * pow2 (lastPlace x) := by
    rw [nearest, hrounded, Int.cast_natCast, spacing]
  have hlow := lowestPlace_le_lastPlace x
  have hover : units * pow2 (lastPlace x) < Binary64.overflow :=
    hnearest ▸ nearest_lt_overflow hrange
  obtain ⟨hle, hnormal⟩ := roundEven_units hx
  rw [hrounded] at hle hnormal
  norm_cast at hle hnormal
  -- a carry makes one bit too many, which the second cut takes off again
  rcases hle.lt_or_eq with hlt | hcarry
  · rw [(shiftToTargetExponent_exact hle hlow).1 hlt]
    dsimp only
    split_ifs with hzero
    · rw [ofBits_pack_zero, hnearest, hzero, Nat.cast_zero, zero_mul]
      rfl
    · rw [ofBits_pack _ (fits_of_lt_overflow hlt hnormal hlow hover), hnearest]
      rfl
  · have hvalue : ((2 ^ 52 : ℕ) : ℚ) * pow2 (lastPlace x + 1) = units * pow2 (lastPlace x) := by
      rw [hcarry, pow2_add, show pow2 1 = 2 by norm_num [pow2]]
      push_cast
      ring
    rw [(shiftToTargetExponent_exact hle hlow).2 hcarry]
    dsimp only
    rw [dif_neg (by norm_num), ofBits_pack _ (fits_of_lt_overflow (by norm_num)
      (Or.inl le_rfl) (by omega) (hvalue ▸ hover)), hnearest, ← hvalue]
    rfl

/-! ## Operations -/

/-- A float whose value is not below zero is the positive zero or has digits without a sign. -/
theorem unpack_of_nonneg {x : Float} {a : ℚ} (hx : Binary64.ofFloat x = .finite a) (ha : 0 ≤ a) :
    x.toModel.unpack = .zero .positive ∧ a = 0 ∨
      ∃ (digits : ℕ) (exponent : ℤ) (hpos : 0 < digits),
        x.toModel.unpack = .finite .positive digits exponent hpos ∧ a = digits * pow2 exponent := by
  rw [ofFloat_eq_ofUnpacked] at hx
  cases hunpack : x.toModel.unpack with
  | infinity sign | notANumber => rw [hunpack] at hx; cases hx
  | zero sign =>
    rw [hunpack] at hx
    cases sign with
    | positive => exact Or.inl ⟨rfl, (Binary64.finite.inj hx).symm⟩
    | negative => cases hx
  | finite sign digits exponent hpos =>
    rw [hunpack] at hx
    have hvalue := Binary64.finite.inj hx
    cases sign with
    | positive => exact Or.inr ⟨digits, exponent, hpos, rfl, hvalue.symm⟩
    | negative =>
      have hdigits : (0 : ℚ) < digits := by exact_mod_cast hpos
      have := mul_pos hdigits (pow2_pos exponent)
      simp only [Sign.apply] at hvalue
      push_cast at hvalue
      linarith

theorem binade_digits {digits : ℕ} (hpos : 0 < digits) (exponent : ℤ) :
    binade (digits * pow2 exponent) = digits.log2 + exponent :=
  binade_mul_of_bounds hpos.ne' le_rfl (lt_add_one _)

/-- A quotient is at most one binade lower than the difference of the binades. -/
theorem binade_sub_le_binade_div {x y : ℚ} (hx : x ≠ 0) (hy : y ≠ 0) :
    binade x - binade y - 1 ≤ binade (x / y) := by
  refine le_binade (div_ne_zero hx hy) ?_
  rw [abs_div, le_div_iff₀ (abs_pos.mpr hy)]
  calc pow2 (binade x - binade y - 1) * |y|
      ≤ pow2 (binade x - binade y - 1) * pow2 (binade y + 1) :=
        mul_le_mul_of_nonneg_left (abs_lt_pow2_binade hy).le (pow2_pos _).le
    _ = pow2 (binade x) := by rw [← pow2_add]; congr 1; ring
    _ ≤ |x| := pow2_binade_le hx

/-- The place down to which a quotient is computed is not above its last place. -/
theorem targetExponent_le_lastPlace_div {m n : ℕ} (hm : 0 < m) (hn : 0 < n) (k l : ℤ) :
    Format.binary64.targetExponent (totalExponent m k - totalExponent n l) ≤
      lastPlace (m * pow2 k / (n * pow2 l)) := by
  have hx : (m : ℚ) * pow2 k ≠ 0 := mul_ne_zero (by exact_mod_cast hm.ne') (pow2_pos k).ne'
  have hy : (n : ℚ) * pow2 l ≠ 0 := mul_ne_zero (by exact_mod_cast hn.ne') (pow2_pos l).ne'
  have hbinade := binade_sub_le_binade_div hx hy
  rw [binade_digits hm, binade_digits hn] at hbinade
  rw [targetExponent_eq, totalExponent, totalExponent, lastPlace, if_neg (div_ne_zero hx hy)]
  omega

/-- The quotient of two floats is that of their values, rounded. -/
theorem ofFloat_div {x y : Float} {a b : ℚ} (hx : Binary64.ofFloat x = .finite a)
    (hy : Binary64.ofFloat y = .finite b) (ha : 0 ≤ a) (hb : 0 < b) (hrange : a / b < rangeLimit) :
    Binary64.ofFloat (x / y) = .finite (nearest (a / b)) := by
  show Binary64.ofBits ⟨UnpackedFloat.pack Format.binary64
    (UnpackedFloat.div Format.binary64 x.toModel.unpack y.toModel.unpack)⟩ = _
  obtain ⟨_, rfl⟩ | ⟨n, l, hn, hunpack, rfl⟩ := unpack_of_nonneg hy hb.le
  · exact absurd hb (lt_irrefl _)
  rw [hunpack]
  obtain ⟨hzero, rfl⟩ | ⟨m, k, hm, hunpack', rfl⟩ := unpack_of_nonneg hx ha
  · rw [hzero, zero_div, nearest_zero]
    exact ofBits_pack_zero .positive
  rw [hunpack', UnpackedFloat.div, divCore]
  dsimp only
  have hlast := targetExponent_le_lastPlace_div hm hn k l
  generalize htarget : min (k - l)
    (Format.binary64.targetExponent (totalExponent m k - totalExponent n l)) = target
  obtain ⟨shift, hshift⟩ : ∃ shift : ℕ, k - l = target + shift :=
    ⟨(k - l - target).toNat, by omega⟩
  have hvalue : ((m <<< shift : ℕ) : ℚ) / n * pow2 target = m * pow2 k / (n * pow2 l) := by
    have hk : pow2 k = 2 ^ shift * pow2 target * pow2 l := by
      rw [← pow2_natCast, ← pow2_add, ← pow2_add]
      congr 1
      omega
    have hl := (pow2_pos l).ne'
    rw [hk, Nat.shiftLeft_eq]
    push_cast
    field_simp
  rw [hshift, add_sub_cancel_left, Int.toNat_natCast, ← hvalue]
  exact ofBits_pack_roundWithAccuracy (describes_quotient (m <<< shift) hn)
    (by rw [hvalue]; omega) (by rwa [hvalue])

/-- Digits that are exact are rounded to the grid. -/
theorem ofBits_pack_roundWithAccuracy_exact {m : ℕ} {k : ℤ}
    (hplace : k ≤ lastPlace (m * pow2 k)) (hrange : m * pow2 k < rangeLimit) :
    Binary64.ofBits ⟨UnpackedFloat.pack Format.binary64
        (roundWithAccuracy Format.binary64 .positive m k .exact)⟩ =
      .finite (nearest (m * pow2 k)) :=
  ofBits_pack_roundWithAccuracy (describes_exact m) hplace hrange

theorem unpack_one : (Float.ofBits 4607182418800017408).toModel.unpack =
    .finite .positive (2 ^ 52) (-52) (Nat.two_pow_pos 52) := by
  rfl

/-- Multiplying by one changes nothing. -/
theorem ofFloat_mul_one {x : Float} {a : ℚ} (hx : Binary64.ofFloat x = .finite a) (ha : 0 ≤ a)
    (hrange : a < rangeLimit) :
    Binary64.ofFloat (x * Float.ofBits 4607182418800017408) = .finite (nearest a) := by
  show Binary64.ofBits ⟨UnpackedFloat.pack Format.binary64
    (UnpackedFloat.mul Format.binary64 x.toModel.unpack
      (Float.ofBits 4607182418800017408).toModel.unpack)⟩ = _
  rw [unpack_one]
  obtain ⟨hzero, rfl⟩ | ⟨m, k, hm, hunpack, rfl⟩ := unpack_of_nonneg hx ha
  · rw [hzero, nearest_zero]
    exact ofBits_pack_zero .positive
  rw [hunpack, UnpackedFloat.mul]
  have hvalue : ((m * 2 ^ 52 : ℕ) : ℚ) * pow2 (k + -52) = m * pow2 k := by
    rw [pow2_add, show pow2 (-52) = 1 / 2 ^ 52 by norm_num [pow2]]
    push_cast
    ring
  have hplace : k + -52 ≤ lastPlace (m * pow2 k) := by
    rw [lastPlace, if_neg (mul_pos (by exact_mod_cast hm) (pow2_pos k)).ne', binade_digits hm]
    omega
  rw [← hvalue] at hplace hrange ⊢
  exact ofBits_pack_roundWithAccuracy_exact hplace hrange

theorem ofFloat_toFloat {n : ℕ} (h : n < 2 ^ 53) :
    Binary64.ofFloat n.toUInt64.toFloat = .finite n := by
  have hword : n.toUInt64.toNat = n := Nat.mod_eq_of_lt (h.trans (by norm_num))
  show Binary64.ofBits ⟨UnpackedFloat.pack Format.binary64
    (UnpackedFloat.ofInt Format.binary64 n.toUInt64.toNat)⟩ = _
  rw [hword, UnpackedFloat.ofInt, UnpackedFloat.normalize]
  rcases Nat.eq_zero_or_pos n with rfl | hpos
  · exact ofBits_pack_zero .positive
  have hlog : n.log2 ≤ 52 := Nat.lt_succ_iff.mp ((Nat.log2_lt hpos.ne').mpr h)
  rw [compare_gt_iff_gt.mpr (by exact_mod_cast hpos)]
  dsimp only
  have hshift : (0 - Format.binary64.targetExponent (totalExponent n 0)).toNat = 52 - n.log2 := by
    rw [targetExponent_eq, totalExponent, lowestPlace]
    omega
  have hvalue : ((n <<< (52 - n.log2) : ℕ) : ℚ) * pow2 (0 - (52 - n.log2 : ℕ)) = n := by
    rw [Nat.shiftLeft_eq, zero_sub, pow2, zpow_neg, zpow_natCast]
    push_cast
    field_simp
  have hbinade : binade n = n.log2 := by
    have hdigits := binade_digits hpos 0
    rwa [pow2, zpow_zero, mul_one, add_zero] at hdigits
  have hplace : 0 - ((52 - n.log2 : ℕ) : ℤ) ≤ lastPlace n := by
    rw [lastPlace, if_neg (by exact_mod_cast hpos.ne'), hbinade]
    omega
  have hrange : (n : ℚ) < rangeLimit := by exact_mod_cast lt_rangeLimit (by norm_num) h.le
  have hround := ofBits_pack_roundWithAccuracy_exact (hvalue.symm ▸ hplace) (hvalue.symm ▸ hrange)
  rw [hvalue, nearest_natCast h.le] at hround
  rw [Int.toNat_natCast, UnpackedFloat.round, decreaseExponent, hshift]
  exact hround

/-- A whole number of at most 53 bits is a float. -/
theorem ofFloat_ofNat {n : ℕ} (h : n < 2 ^ 53) : Binary64.ofFloat (Float.ofNat n) = .finite n := by
  have hproduct : Float.ofNat n = n.toUInt64.toFloat * Float.ofBits 4607182418800017408 := by
    show Float.ofScientific n false 0 = _
    rw [Float.ofScientific, dif_pos ⟨h, Nat.zero_le _⟩]
    rfl
  rw [hproduct, ofFloat_mul_one (ofFloat_toFloat h) n.cast_nonneg, nearest_natCast h.le]
  exact_mod_cast lt_rangeLimit (by norm_num) h.le

theorem ofBits_pack_notANumber :
    Binary64.ofBits ⟨UnpackedFloat.pack Format.binary64 .notANumber⟩ = .nan := by
  decide +kernel

/-- Nothing times a number is nothing. Times anything else, it is not a number. -/
theorem ofFloat_zero_mul {x : Float} (hx : (Binary64.ofFloat x).toRat? = some 0) (y : Float) :
    (Binary64.ofFloat (x * y)).toRat? = some 0 ∨
      (Binary64.ofFloat y).toRat? = none ∧ Binary64.ofFloat (x * y) = .nan := by
  have hproduct : Binary64.ofFloat (x * y) = Binary64.ofBits ⟨UnpackedFloat.pack Format.binary64
      (UnpackedFloat.mul Format.binary64 x.toModel.unpack y.toModel.unpack)⟩ := rfl
  rw [hproduct, ofFloat_eq_ofUnpacked y]
  rw [ofFloat_eq_ofUnpacked] at hx
  cases hunpack : x.toModel.unpack with
  | infinity sign | notANumber => rw [hunpack] at hx; cases hx
  | finite sign digits exponent hpos =>
    rw [hunpack] at hx
    rcases mul_eq_zero.mp (Option.some.inj hx) with hdigits | hpow
    · cases sign <;> simp [Sign.apply] at hdigits <;> omega
    · exact absurd hpow (pow2_pos exponent).ne'
  | zero sign =>
    cases y.toModel.unpack with
    | infinity other | notANumber => exact Or.inr ⟨rfl, ofBits_pack_notANumber⟩
    | zero other | finite other digits exponent hpos =>
      rw [UnpackedFloat.mul, ofBits_pack_zero]
      exact Or.inl (by cases sign <;> cases other <;> rfl)

end Ringtone.Number
