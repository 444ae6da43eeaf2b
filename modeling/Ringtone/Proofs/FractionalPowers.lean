import Mathlib.Analysis.SpecialFunctions.Pow.Real
import Ringtone.Proofs.Frequency

/-!
# Two to a fractional power

The bits of a fraction, taken from the last to the first, lead from one to the power by a root each.
A root in fixed point is cut off, but what the number under it was short by weighs less behind the
root, so that the whole chain stays less than four units short of the exact power. That is far less
than a place of a binary64 number: two to the power of an exponent on the grid is had to less than
one unit of its last place, and exactly where the exponent is a whole number.
-/

namespace Ringtone.Number

/-! ## Exact powers -/

/-- Two to a fractional power, as it is. -/
noncomputable def exactPower (exponent : ℚ) : ℝ := 2 ^ (exponent : ℝ)

theorem exactPower_pos (e : ℚ) : 0 < exactPower e := Real.rpow_pos_of_pos two_pos _

theorem exactPower_add (e f : ℚ) : exactPower (e + f) = exactPower e * exactPower f := by
  rw [exactPower, Rat.cast_add, Real.rpow_add two_pos]
  rfl

theorem exactPower_intCast (k : ℤ) : exactPower k = pow2 k := by
  rw [exactPower, Rat.cast_intCast, Real.rpow_intCast, pow2, Rat.cast_zpow, Rat.cast_ofNat]

theorem exactPower_le {e f : ℚ} (h : e ≤ f) : exactPower e ≤ exactPower f :=
  Real.rpow_le_rpow_of_exponent_le one_le_two (by exact_mod_cast h)

theorem exactPower_pow (e : ℚ) (n : ℕ) : exactPower e ^ n = exactPower (e * n) := by
  rw [exactPower, ← Real.rpow_mul_natCast zero_le_two, exactPower, Rat.cast_mul, Rat.cast_natCast]

/-- Near zero the power is near one. -/
theorem abs_exactPower_sub_one_le {d : ℚ} (h : |d| ≤ 1) : |exactPower d - 1| ≤ 2 * |d| := by
  have hd : |(d : ℝ)| ≤ 1 := by exact_mod_cast h
  have hlog : |Real.log 2 * d| ≤ |(d : ℝ)| := by
    have hle := Real.log_le_sub_one_of_pos two_pos
    rw [abs_mul, abs_of_pos (Real.log_pos one_lt_two)]
    exact mul_le_of_le_one_left (abs_nonneg _) (by linarith)
  rw [exactPower, Real.rpow_def_of_pos two_pos, Rat.cast_abs]
  exact (Real.abs_exp_sub_one_le (hlog.trans hd)).trans
    (mul_le_mul_of_nonneg_left hlog zero_le_two)

/-! ## The chain of roots -/

/-- The number that bits behind the point denote. -/
def bitsValue : List Bool → ℚ
  | [] => 0
  | bit :: bits => ((if bit then 1 else 0) + bitsValue bits) / 2

theorem bitsValue_fractionBits (numerator places : ℕ) :
    bitsValue (fractionBits numerator places) = (numerator % 2 ^ places : ℕ) / 2 ^ places := by
  induction places with
  | zero => simp [fractionBits, bitsValue, Nat.mod_one]
  | succ places ih =>
    rw [fractionBits, bitsValue, ih, Nat.mod_pow_succ, ← Nat.toNat_testBit, pow_succ]
    cases numerator.testBit places with
    | false => push_cast; simp; ring
    | true => push_cast; field_simp; simp; ring

/-- A bit before the others puts the power under a root, doubled if the bit is set. -/
theorem exactPower_bitsValue_sq (bit : Bool) (bits : List Bool) :
    exactPower (bitsValue (bit :: bits)) ^ 2 =
      (if bit then 2 else 1) * exactPower (bitsValue bits) := by
  rw [exactPower_pow, bitsValue, Nat.cast_ofNat, div_mul_cancel₀ _ two_ne_zero, exactPower_add]
  cases bit <;> simp [exactPower]

/-- The whole root `r` of a number is short of an exact root `y` by less than four, where the factor
`p` of the number is short of the exact factor `x` by less than four. -/
theorem root_near {c p x r y one : ℝ} (hc : c = 1 ∨ c = 2) (hone : 0 < one) (hp : one ≤ p)
    (hr : 0 ≤ r) (hy : 0 ≤ y) (hbelow : r ^ 2 ≤ c * p * one) (habove : c * p * one < (r + 1) ^ 2)
    (hsq : y ^ 2 = c * x * one) (hle : p ≤ x) (hlt : x < p + 4) : r ≤ y ∧ y < r + 4 := by
  have hcpos : 0 < c := by rcases hc with rfl | rfl <;> norm_num
  constructor
  · have hsquares : r ^ 2 ≤ y ^ 2 := by
      rw [hsq]
      exact hbelow.trans (by gcongr)
    exact (pow_le_pow_iff_left₀ hr hy two_ne_zero).mp hsquares
  · -- the root is so great that three steps from it add more to its square than is missing
    have hgrowth : 4 * c * one ≤ 6 * r + 15 := by
      have hlow : c * one ^ 2 < (r + 1) ^ 2 := by
        refine lt_of_le_of_lt ?_ habove
        rw [sq, ← mul_assoc]
        gcongr
      by_contra hsmall
      rw [not_le] at hsmall
      rcases hc with rfl | rfl <;> nlinarith
    have hsquares : y ^ 2 < (r + 4) ^ 2 := by
      calc y ^ 2 = c * x * one := hsq
        _ < c * (p + 4) * one := by gcongr
        _ = c * p * one + 4 * c * one := by ring
        _ < (r + 1) ^ 2 + (6 * r + 15) := by linarith
        _ = (r + 4) ^ 2 := by ring
    exact (pow_lt_pow_iff_left₀ hy (by linarith) two_ne_zero).mp hsquares

/-- The chain of roots is short of the exact power by less than four units. -/
theorem powerOfBits_near (bits : List Bool) :
    powerOfBits bits ≤ exactPower (bitsValue bits) * fixedOne ∧
      exactPower (bitsValue bits) * fixedOne < powerOfBits bits + 4 := by
  have hfixed : (0 : ℝ) < fixedOne := by exact_mod_cast (by decide : 0 < fixedOne)
  induction bits with
  | nil => simp [powerOfBits, exactPower, bitsValue]
  | cons bit bits ih =>
    obtain ⟨hle, hlt⟩ := ih
    have hbelow := Nat.sqrt_le' ((if bit then 2 else 1) * powerOfBits bits * fixedOne)
    have habove := Nat.lt_succ_sqrt' ((if bit then 2 else 1) * powerOfBits bits * fixedOne)
    have hsq : (exactPower (bitsValue (bit :: bits)) * fixedOne) ^ 2 =
        (if bit then 2 else 1) * (exactPower (bitsValue bits) * fixedOne) * fixedOne := by
      rw [mul_pow, exactPower_bitsValue_sq]
      ring
    rw [← powerOfBits] at hbelow habove
    refine root_near (by cases bit <;> simp) hfixed ?_ (Nat.cast_nonneg _)
      (mul_pos (exactPower_pos _) hfixed).le ?_ ?_ hsq hle hlt
    · exact_mod_cast (powerOfBits_bounds bits).1
    · exact_mod_cast hbelow
    · exact_mod_cast habove

/-! ## Exponents on the grid -/

theorem exists_den_pow2 (k : ℤ) : ∃ places, (pow2 k).den = 2 ^ places := by
  obtain ⟨n, rfl | rfl⟩ := k.eq_nat_or_neg
  · refine ⟨0, ?_⟩
    rw [pow2_natCast, ← Nat.cast_ofNat, ← Nat.cast_pow, Rat.den_natCast, pow_zero]
  · refine ⟨n, ?_⟩
    rw [pow2, zpow_neg, zpow_natCast, ← Nat.cast_ofNat, ← Nat.cast_pow,
      Rat.inv_natCast_den_of_pos (by positivity)]

/-- The denominators on the grid are powers of two. -/
theorem OnGrid.exists_den_eq {x : ℚ} (h : OnGrid x) : ∃ places, x.den = 2 ^ places := by
  obtain ⟨m, k, _, _, rfl⟩ := h
  obtain ⟨n, hn⟩ := exists_den_pow2 k
  have hdvd : (m * pow2 k).den ∣ 2 ^ n := by
    have hproduct := Rat.mul_den_dvd m (pow2 k)
    rwa [Rat.den_intCast, one_mul, hn] at hproduct
  obtain ⟨places, _, hplaces⟩ := (Nat.dvd_prime_pow Nat.prime_two).mp hdvd
  exact ⟨places, hplaces⟩

/-- The bits behind the point of an exponent are those of its fraction. -/
theorem bitsValue_fract {e : ℚ} (h : OnGrid e) :
    bitsValue (fractionBits (Int.fract e).num.natAbs (Int.fract e).den.log2) = Int.fract e := by
  obtain ⟨places, hplaces⟩ := h.exists_den_eq
  have hden : (Int.fract e).den = 2 ^ places := by rw [Rat.den_intFract, hplaces]
  have hnum : ((Int.fract e).num.natAbs : ℤ) = (Int.fract e).num :=
    Int.natAbs_of_nonneg (Rat.num_nonneg.mpr (Int.fract_nonneg e))
  have hlt : (Int.fract e).num.natAbs < 2 ^ places := by
    have hbelow := Rat.num_lt_denom_iff.mpr (Int.fract_lt_one e)
    omega
  have hvalue := Rat.num_div_den (Int.fract e)
  rw [← hnum, hden, Int.cast_natCast] at hvalue
  rw [hden, Nat.log2_two_pow, bitsValue_fractionBits, Nat.mod_eq_of_lt hlt]
  exact_mod_cast hvalue

/-- The power in fixed point is short of the exact one by less than four units. -/
theorem fixedPower_near {e : ℚ} (h : OnGrid e) :
    fixedPower e ≤ exactPower e ∧ exactPower e < fixedPower e + 4 * pow2 (⌊e⌋ - powerPlaces) := by
  have hunit : (0 : ℝ) < pow2 (⌊e⌋ - powerPlaces) := by exact_mod_cast pow2_pos _
  have hfixed : (fixedOne : ℝ) = pow2 powerPlaces := by
    rw [← fixedOne_eq, Rat.cast_natCast]
  have hsplit : exactPower e =
      exactPower (Int.fract e) * fixedOne * pow2 (⌊e⌋ - powerPlaces) := by
    rw [hfixed, mul_assoc, ← Rat.cast_mul, ← pow2_add, add_sub_cancel, ← exactPower_intCast,
      ← exactPower_add, Int.fract_add_floor]
  obtain ⟨hle, hlt⟩ := powerOfBits_near
    (fractionBits (Int.fract e).num.natAbs (Int.fract e).den.log2)
  rw [bitsValue_fract h] at hle hlt
  rw [hsplit, fixedPower, Rat.cast_mul, Rat.cast_natCast, ← add_mul]
  exact ⟨mul_le_mul_of_nonneg_right hle hunit.le, mul_lt_mul_of_pos_right hlt hunit⟩

/-- A number is less than one unit of the last place away from two to the power of `e`. -/
def IsNearPower (r e : ℚ) : Prop := |r - exactPower e| < pow2 (⌊e⌋ - 52)

theorem isNearPower_nearest {e : ℚ} (h : OnGrid e) (hlow : -1022 ≤ ⌊e⌋) :
    IsNearPower (nearest (fixedPower e)) e := by
  obtain ⟨hlower, hupper⟩ := fixedPower_bounds e
  obtain ⟨hle, hlt⟩ := fixedPower_near h
  have hround : |fixedPower e - nearest (fixedPower e)| ≤ pow2 (⌊e⌋ - 52) / 2 := by
    refine abs_sub_nearest_le_of_lt (by rw [lowestPlace]; omega) ?_
    rw [abs_of_pos ((pow2_pos _).trans_le hlower)]
    exact hupper.trans_eq (by congr 1; ring)
  -- the units of the fixed point are 28 places below
  have hunits : 4 * pow2 (⌊e⌋ - powerPlaces) < pow2 (⌊e⌋ - 52) / 2 := by
    have hplace := pow2_pos (⌊e⌋ - powerPlaces)
    have hsplit : pow2 (⌊e⌋ - 52) = 2 ^ 28 * pow2 (⌊e⌋ - powerPlaces) := by
      rw [← pow2_natCast, ← pow2_add, powerPlaces]
      congr 1
      push_cast
      ring
    linarith
  have hround' : |(fixedPower e - nearest (fixedPower e) : ℝ)| ≤ pow2 (⌊e⌋ - 52) / 2 := by
    exact_mod_cast hround
  have hunits' : 4 * (pow2 (⌊e⌋ - powerPlaces) : ℝ) < pow2 (⌊e⌋ - 52) / 2 := by
    exact_mod_cast hunits
  obtain ⟨hbelow, habove⟩ := abs_le.mp hround'
  rw [IsNearPower, abs_lt]
  constructor <;> linarith

/-- Two to the power of an exponent on the grid is had to less than one unit of the last place. -/
theorem powerOfTwo_near {e : ℚ} (h : OnGrid e) (hlow : -1022 ≤ ⌊e⌋) (hhigh : ⌊e⌋ < 1023) :
    ∃ r, powerOfTwo e = .finite r ∧ IsNearPower r e :=
  ⟨_, powerOfTwo_eq (by omega) hhigh, isNearPower_nearest h hlow⟩

/-- A whole number needs no root. -/
theorem powerOfTwo_intCast {k : ℤ} (hlow : -1074 ≤ k) (hhigh : k < 1023) :
    powerOfTwo k = .finite (pow2 k) := by
  have hfixed : fixedPower k = pow2 k := by
    rw [fixedPower, Int.fract_intCast, Int.floor_intCast]
    show (fixedOne : ℚ) * _ = _
    rw [fixedOne_eq, ← pow2_add, add_sub_cancel]
  rw [powerOfTwo_eq (by rwa [Int.floor_intCast]) (by rwa [Int.floor_intCast]), hfixed,
    nearest_of_onGrid (onGrid_pow2 hlow)]

/-! ## Rounded exponents -/

/-- An exponent below eight may be rounded before the power is taken. -/
theorem IsNearPower.abs_sub_exactPower_le {r x : ℚ} (h : IsNearPower r (nearest x)) (hx : |x| < 8) :
    |r - exactPower x| ≤ exactPower x / 2 ^ 49 := by
  have hpos := exactPower_pos x
  have hround : |nearest x - x| ≤ 1 / 2 ^ 51 :=
    abs_nearest_sub_le 50 (by norm_num) (hx.trans_eq (by norm_num))
  have hround' : ((|nearest x - x| : ℚ) : ℝ) ≤ 1 / 2 ^ 51 := by
    have hcast := (Rat.cast_le (K := ℝ)).mpr hround
    rwa [Rat.cast_div, Rat.cast_one, Rat.cast_pow, Rat.cast_ofNat] at hcast
  have hsplit : exactPower (nearest x) = exactPower x * exactPower (nearest x - x) := by
    rw [← exactPower_add, add_sub_cancel]
  have hpower : |exactPower (nearest x) - exactPower x| ≤ exactPower x * (1 / 2 ^ 50) := by
    have hone := abs_exactPower_sub_one_le (d := nearest x - x) (hround.trans (by norm_num))
    rw [hsplit, ← mul_sub_one, abs_mul, abs_of_pos hpos]
    refine mul_le_mul_of_nonneg_left ?_ hpos.le
    linarith
  have hplace : (pow2 (⌊nearest x⌋ - 52) : ℝ) ≤ exactPower (nearest x) / 2 ^ 52 := by
    have hfloor := exactPower_le (Int.floor_le (nearest x))
    rw [exactPower_intCast] at hfloor
    have hsmall : pow2 (⌊nearest x⌋ - 52) = pow2 ⌊nearest x⌋ / 2 ^ 52 := by
      rw [sub_eq_add_neg, pow2_add, show pow2 (-52) = 1 / 2 ^ 52 by norm_num [pow2], mul_one_div]
    rw [hsmall, Rat.cast_div, Rat.cast_pow, Rat.cast_ofNat]
    exact div_le_div_of_nonneg_right hfloor (by positivity)
  have hbound := (abs_le.mp hpower).2
  have htotal := abs_sub_le (r : ℝ) (exactPower (nearest x)) (exactPower x)
  rw [IsNearPower] at h
  linarith

end Ringtone.Number
