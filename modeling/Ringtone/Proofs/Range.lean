import Ringtone.Number.Quantity
import Ringtone.Proofs.Rounding

/-!
# The range of binary64 numbers

A number rounds to an infinity from `2 ^ 1024 - 2 ^ 970` on, which is half-way between the greatest
point of the grid with 1024 places and the next. Below that, arithmetic is exact arithmetic rounded
to the grid.
-/

namespace Ringtone.Number

/-- The least whole number that is too large for the format. -/
def rangeLimit : ℕ := 2 ^ 1024 - 2 ^ 970

theorem rangeLimit_le : rangeLimit ≤ 2 ^ 1024 := Nat.sub_le _ _

theorem rangeLimit_eq : (rangeLimit : ℚ) = (2 ^ 54 - 1) * pow2 970 := by
  have hcast : (rangeLimit : ℚ) = 2 ^ 1024 - 2 ^ 970 := by
    rw [rangeLimit, Nat.cast_sub (pow_le_pow_right₀ one_le_two (by norm_num)), Nat.cast_pow,
      Nat.cast_pow, Nat.cast_ofNat]
  rw [hcast, show (970 : ℤ) = (970 : ℕ) from rfl, pow2_natCast, sub_mul, ← pow_add, one_mul]

theorem overflow_eq : Binary64.overflow = 2 ^ 54 * pow2 970 := by
  rw [Binary64.overflow, ← pow2_natCast, ← pow2_add]; rfl

theorem rangeLimit_lt_overflow : (rangeLimit : ℚ) < Binary64.overflow := by
  rw [rangeLimit_eq, overflow_eq]
  exact mul_lt_mul_of_pos_right (by norm_num) (pow2_pos _)

theorem pow2_lt_rangeLimit {k : ℤ} (h : k ≤ 1023) : pow2 k < rangeLimit := by
  refine (pow2_le.mpr (show k ≤ (53 : ℕ) + 970 by omega)).trans_lt ?_
  rw [rangeLimit_eq, pow2_add, pow2_natCast]
  exact mul_lt_mul_of_pos_right (by norm_num) (pow2_pos _)

theorem lt_rangeLimit {n k : ℕ} (hk : k ≤ 1023) (h : n ≤ 2 ^ k) : n < rangeLimit := by
  have hn : (n : ℚ) ≤ pow2 k := by rw [pow2_natCast]; exact_mod_cast h
  exact_mod_cast hn.trans_lt (pow2_lt_rangeLimit (by exact_mod_cast hk))

/-- The limit of the range is half-way to the next point, whose last place is even. -/
theorem nearest_rangeLimit : nearest rangeLimit = Binary64.overflow := by
  have hpos : (0 : ℚ) < rangeLimit := by
    rw [rangeLimit_eq]; exact mul_pos (by norm_num) (pow2_pos _)
  have hbinade : binade rangeLimit = 1023 := by
    have hlow : (1023 : ℤ) ≤ binade rangeLimit := by
      refine le_binade hpos.ne' ?_
      rw [abs_of_pos hpos, rangeLimit_eq, show (1023 : ℤ) = (53 : ℕ) + 970 from rfl, pow2_add,
        pow2_natCast]
      exact mul_le_mul_of_nonneg_right (by norm_num) (pow2_pos _).le
    have hhigh : binade rangeLimit < 1024 := by
      refine binade_lt hpos.ne' ?_
      rw [abs_of_pos hpos]
      exact rangeLimit_lt_overflow
    omega
  have hspacing : spacing rangeLimit = 2 * pow2 970 := by
    rw [spacing, lastPlace, if_neg hpos.ne', hbinade]
    rw [show max (1023 - 52) lowestPlace = (1 : ℕ) + 970 from rfl, pow2_add, pow2_natCast, pow_one]
  have hhalf : (rangeLimit : ℚ) / spacing rangeLimit = ((2 ^ 53 - 1 : ℤ) : ℚ) + 1 / 2 := by
    rw [hspacing, rangeLimit_eq, div_eq_iff (mul_pos two_pos (pow2_pos _)).ne']
    push_cast; ring
  rw [nearest, hhalf, roundEven_half, if_neg (by norm_num), hspacing, overflow_eq]
  push_cast; ring

/-- Below the range's end, the points of the grid keep a whole half-space away from its limit. -/
theorem OnGrid.add_le_rangeLimit {g : ℚ} (hg : OnGrid g) (h : g < Binary64.overflow) :
    g + pow2 970 ≤ rangeLimit := by
  have hgap : (rangeLimit : ℚ) + pow2 970 = Binary64.overflow := by
    rw [rangeLimit_eq, overflow_eq]; ring
  have hclosest := abs_sub_nearest_le_of_onGrid rangeLimit hg
  rw [nearest_rangeLimit, ← hgap, sub_add_cancel_left, abs_neg, abs_of_pos (pow2_pos _)] at hclosest
  rcases le_abs.mp hclosest with hbelow | habove
  · linarith
  · linarith

/-- Rounding leaves the range from its limit on, and not before. -/
theorem overflow_le_nearest_iff (x : ℚ) : Binary64.overflow ≤ nearest x ↔ rangeLimit ≤ x := by
  constructor
  · intro h
    by_contra hlt
    rw [not_le] at hlt
    -- the greatest point of the range is then nearer than any point beyond it
    have hgreatest : OnGrid ((2 ^ 54 - 2) * pow2 970) := by
      refine ⟨2 ^ 53 - 1, 971, by norm_num, by decide, ?_⟩
      rw [show (971 : ℤ) = (1 : ℕ) + 970 from rfl, pow2_add, pow2_natCast]
      push_cast; ring
    have hplace := pow2_pos 970
    rw [overflow_eq] at h
    rw [rangeLimit_eq] at hlt
    rcases le_total x ((2 ^ 54 - 2) * pow2 970) with hx | hx
    · have := h.trans (nearest_le hgreatest hx)
      nlinarith
    · have hnear := (abs_sub_nearest_le_of_onGrid x hgreatest).trans_eq
        (abs_of_nonneg (sub_nonneg.mpr hx))
      have := (abs_le.mp hnear).1
      linarith
  · intro h
    rw [← nearest_rangeLimit]
    exact nearest_mono h

theorem nearest_lt_overflow {x : ℚ} (h : x < rangeLimit) : nearest x < Binary64.overflow :=
  not_le.mp (mt (overflow_le_nearest_iff x).mp (not_le.mpr h))

/-- Rounding leaves room below the limit. -/
theorem nearest_add_lt_rangeLimit {x y : ℚ} (h : x < rangeLimit) (hy : y < pow2 970) :
    nearest x + y < rangeLimit := by
  have := (onGrid_nearest x).add_le_rangeLimit (nearest_lt_overflow h)
  linarith

theorem nearest_lt_rangeLimit {x : ℚ} (h : x < rangeLimit) : nearest x < rangeLimit := by
  have := nearest_add_lt_rangeLimit h (pow2_pos 970)
  rwa [add_zero] at this

theorem neg_overflow_lt_nearest {x : ℚ} (h : -rangeLimit < x) : -Binary64.overflow < nearest x := by
  have := nearest_lt_overflow (x := -x) (by linarith)
  rw [nearest_neg] at this
  linarith

theorem nearest_nonneg {x : ℚ} (h : 0 ≤ x) : 0 ≤ nearest x := by
  have hgrid : OnGrid ((0 : ℤ) : ℚ) := onGrid_intCast (by norm_num)
  rw [Int.cast_zero] at hgrid
  exact le_nearest hgrid h

theorem natAbs_floor_nearest_lt {x : ℚ} (hx : 0 ≤ x) (h : x < rangeLimit) :
    ⌊nearest x⌋.natAbs < rangeLimit := by
  have hfloor := Int.floor_nonneg.mpr (nearest_nonneg hx)
  have hbelow : ⌊nearest x⌋ < (rangeLimit : ℤ) := by
    exact_mod_cast (Int.floor_le _).trans_lt (nearest_lt_rangeLimit h)
  omega

theorem one_le_nearest {n : ℕ} (h : 0 < n) : 1 ≤ nearest n := by
  have hgrid : OnGrid ((1 : ℤ) : ℚ) := onGrid_intCast (by norm_num)
  exact_mod_cast le_nearest hgrid (by exact_mod_cast h : ((1 : ℤ) : ℚ) ≤ n)

namespace Binary64

/-! ## Whole numbers -/

theorem gridValue?_eq_some {n : ℤ} (h : n.natAbs < rangeLimit) :
    gridValue? n = some (nearest n) := by
  have hn : |(n : ℚ)| < rangeLimit := by
    rw [← Int.cast_abs, Int.abs_eq_natAbs]; exact_mod_cast h
  obtain ⟨hlow, hhigh⟩ := abs_lt.mp hn
  rw [gridValue?, if_neg]
  rw [not_or, not_le, not_le]
  exact ⟨nearest_lt_overflow hhigh, neg_overflow_lt_nearest hlow⟩

theorem gridValue?_eq_none {n : ℤ} (h : rangeLimit ≤ n.natAbs) : gridValue? n = none := by
  have hn : (rangeLimit : ℚ) ≤ |(n : ℚ)| := by
    rw [← Int.cast_abs, Int.abs_eq_natAbs]; exact_mod_cast h
  rw [gridValue?, if_pos]
  rcases le_abs.mp hn with hpos | hneg
  · exact Or.inl ((overflow_le_nearest_iff _).mpr hpos)
  · have := (overflow_le_nearest_iff _).mpr hneg
    rw [nearest_neg] at this
    exact Or.inr (by linarith)

theorem toReal_whole {n : ℤ} (h : n.natAbs < rangeLimit) :
    (Quantity.whole n).toReal = .ok (.finite (nearest n)) := by
  simp [Quantity.toReal, ofInt?, gridValue?_eq_some h]

theorem toReal_whole_eq_error {n : ℤ} (h : rangeLimit ≤ n.natAbs) :
    (Quantity.whole n).toReal = .error .tooLarge := by
  simp [Quantity.toReal, ofInt?, gridValue?_eq_none h]

/-! ## Results of arithmetic -/

theorem ofRat_of_lt {x : ℚ} (hpos : 0 < nearest x) (h : x < rangeLimit) :
    ofRat x = .finite (nearest x) := by
  have hlt := nearest_lt_overflow h
  have hover : (0 : ℚ) < overflow := pow2_pos _
  rw [ofRat, if_neg hpos.ne', if_neg (not_le.mpr hlt), if_neg (by linarith)]

theorem ofRat_of_le {x : ℚ} (h : rangeLimit ≤ x) : ofRat x = .infinite false := by
  have hle := (overflow_le_nearest_iff x).mpr h
  have hover : (0 : ℚ) < overflow := pow2_pos _
  rw [ofRat, if_neg (by linarith), if_pos hle]

/-- The result of an operation on numbers that are not negative, rounded. -/
theorem ofRat_of_nonneg {x : ℚ} (hx : 0 ≤ x) (h : x < rangeLimit) :
    ofRat x = .finite (nearest x) := by
  rcases (nearest_nonneg hx).eq_or_lt with hround | hround
  · rw [ofRat, if_pos hround.symm, if_neg (not_lt.mpr hx), ← hround]
  · exact ofRat_of_lt hround h

theorem mul_of_pos {x y : ℚ} (hx : 0 < x) (hy : 0 < y) :
    (Binary64.finite x).mul (.finite y) = .ofRat (x * y) := by
  simp only [Binary64.mul, Binary64.toRat?]
  rw [if_neg]
  rintro (hzero | hzero)
  · exact hx.ne' hzero
  · exact hy.ne' hzero

end Binary64

/-! ## Quotients of whole numbers -/

theorem truncate_of_nonneg {x : ℚ} (h : 0 ≤ x) : truncate x = ⌊x⌋ := by
  rw [truncate, if_neg (not_lt.mpr h), floor_eq]

@[simp]
theorem truncate_neg (x : ℚ) : truncate (-x) = -truncate x := by
  rcases lt_trichotomy x 0 with hneg | rfl | hpos
  · rw [truncate, if_neg (by linarith), truncate, if_pos hneg, neg_neg]
  · rfl
  · rw [truncate, if_pos (by linarith), truncate, if_neg (by linarith), neg_neg]

/-- A quotient whose neighbours on the grid lie closer than two parts of the divisor does not round
up to the next whole number. -/
theorem floor_nearest_div {m d : ℕ} (hd : 0 < d) (hm : m / d < 2 ^ 53)
    (hspacing : spacing ((m : ℚ) / d) < 2 / d) : ⌊nearest ((m : ℚ) / d)⌋ = (m / d : ℕ) := by
  have hdpos : (0 : ℚ) < d := by exact_mod_cast hd
  have hgrid : OnGrid ((m / d : ℕ) : ℤ) :=
    onGrid_intCast (by rw [Nat.abs_cast]; exact_mod_cast hm.le)
  rw [Int.floor_eq_iff]
  constructor
  · refine le_nearest hgrid ?_
    rw [le_div_iff₀ hdpos]
    exact_mod_cast Nat.div_mul_le_self m d
  · -- the exact quotient stays a whole part of the divisor below the next whole number
    have hnext : (m : ℚ) / d + 1 / d ≤ ((m / d : ℕ) : ℤ) + 1 := by
      rw [← add_div, div_le_iff₀ hdpos]
      have : m + 1 ≤ (m / d + 1) * d := Nat.lt_mul_of_div_lt (Nat.lt_succ_self _) hd
      exact_mod_cast this
    have herror := (abs_le.mp (abs_sub_nearest_le ((m : ℚ) / d))).1
    have hhalf : (2 : ℚ) / d = 1 / d + 1 / d := by rw [← add_div, one_add_one_eq_two]
    linarith

/-- Thousandths of a number below `2 ^ 53` do not round up to a whole number. -/
theorem floor_nearest_div_thousand {m : ℕ} (h : m < 2 ^ 53) :
    ⌊nearest ((m : ℚ) / 1000)⌋ = (m / 1000 : ℕ) := by
  refine floor_nearest_div (d := 1000) (by norm_num) (by omega) ?_
  have hsmall : |(m : ℚ) / (1000 : ℕ)| < pow2 (-9 + 53) := by
    have hm : (m : ℚ) < 2 ^ 53 := by exact_mod_cast h
    rw [abs_of_nonneg (by positivity), show (-9 + 53 : ℤ) = (44 : ℕ) from rfl, pow2_natCast,
      div_lt_iff₀ (by norm_num)]
    norm_num at hm ⊢
    linarith
  calc spacing ((m : ℚ) / (1000 : ℕ)) ≤ pow2 (-9) := spacing_le (by decide) hsmall
    _ < 2 / (1000 : ℕ) := by norm_num [pow2]

end Ringtone.Number
