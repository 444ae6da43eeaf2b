import Mathlib.Tactic
import Mathlib.Data.Rat.Floor
import Ringtone.Number.Rounding

/-!
# Rounding to the binary64 grid

The points of the grid are a set of their own here, `OnGrid`, and `nearest` is what its name says:
its result is on the grid, and no point of the grid is nearer (`abs_sub_nearest_le_of_onGrid`). All
else about rounding comes from that: it keeps the points of the grid, it is monotone, and so a point
of the grid that bounds a number bounds the rounded number too.
-/

namespace Ringtone.Number

/-! ## Powers of two -/

@[simp]
theorem pow2_pos (k : ℤ) : 0 < pow2 k := zpow_pos (by norm_num) k

theorem pow2_add (k l : ℤ) : pow2 (k + l) = pow2 k * pow2 l := zpow_add₀ two_ne_zero k l

theorem pow2_natCast (n : ℕ) : pow2 n = 2 ^ n := zpow_natCast 2 n

theorem pow2_le {k l : ℤ} : pow2 k ≤ pow2 l ↔ k ≤ l := zpow_le_zpow_iff_right₀ one_lt_two

theorem pow2_lt {k l : ℤ} : pow2 k < pow2 l ↔ k < l := zpow_lt_zpow_iff_right₀ one_lt_two

/-- A power of two is a whole multiple of every smaller one. -/
theorem pow2_eq_mul {k l : ℤ} (h : l ≤ k) : pow2 k = ((2 ^ (k - l).toNat : ℤ) : ℚ) * pow2 l := by
  have hk : k = ((k - l).toNat : ℤ) + l := by omega
  have hcast : ((2 ^ (k - l).toNat : ℤ) : ℚ) = pow2 ((k - l).toNat : ℤ) := by
    rw [pow2_natCast]; push_cast; rfl
  rw [hcast, ← pow2_add, ← hk]

/-! ## Magnitude and binade -/

@[simp]
theorem magnitude_eq_abs (x : ℚ) : magnitude x = |x| := by
  unfold magnitude
  split_ifs with h
  · exact (abs_of_neg h).symm
  · exact (abs_of_nonneg (not_lt.mp h)).symm

/-- The bit lengths of numerator and denominator give the size of a number up to a factor of two. -/
theorem abs_between_guesses {x : ℚ} (hx : x ≠ 0) :
    pow2 ((x.num.natAbs.log2 : ℤ) - x.den.log2 - 1) ≤ |x| ∧
      |x| < pow2 ((x.num.natAbs.log2 : ℤ) - x.den.log2 + 1) := by
  have hnum : x.num.natAbs ≠ 0 := Int.natAbs_ne_zero.mpr (Rat.num_ne_zero.mpr hx)
  have hdpos : (0 : ℚ) < x.den := by exact_mod_cast x.den_pos
  have habs : |x| * x.den = x.num.natAbs := by
    conv_lhs => rw [← abs_of_pos hdpos, ← abs_mul, Rat.mul_den_eq_num]
    rw [Nat.cast_natAbs, Int.cast_abs]
  have hn1 : pow2 x.num.natAbs.log2 ≤ x.num.natAbs := by
    rw [pow2_natCast]; exact_mod_cast Nat.log2_self_le hnum
  have hn2 : (x.num.natAbs : ℚ) < pow2 (x.num.natAbs.log2 + 1) := by
    have := Nat.lt_log2_self (n := x.num.natAbs)
    rw [← Nat.cast_add_one, pow2_natCast]; exact_mod_cast this
  have hd1 : pow2 x.den.log2 ≤ x.den := by
    rw [pow2_natCast]; exact_mod_cast Nat.log2_self_le x.den_nz
  have hd2 : (x.den : ℚ) < pow2 (x.den.log2 + 1) := by
    have := Nat.lt_log2_self (n := x.den)
    rw [← Nat.cast_add_one, pow2_natCast]; exact_mod_cast this
  constructor
  · refine le_of_mul_le_mul_right ?_ hdpos
    calc pow2 ((x.num.natAbs.log2 : ℤ) - x.den.log2 - 1) * x.den
        ≤ pow2 ((x.num.natAbs.log2 : ℤ) - x.den.log2 - 1) * pow2 (x.den.log2 + 1) :=
          mul_le_mul_of_nonneg_left hd2.le (pow2_pos _).le
      _ = pow2 x.num.natAbs.log2 := by rw [← pow2_add]; congr 1; ring
      _ ≤ |x| * x.den := habs ▸ hn1
  · refine lt_of_mul_lt_mul_right ?_ hdpos.le
    calc |x| * x.den < pow2 (x.num.natAbs.log2 + 1) := habs ▸ hn2
      _ = pow2 ((x.num.natAbs.log2 : ℤ) - x.den.log2 + 1) * pow2 x.den.log2 := by
          rw [← pow2_add]; congr 1; ring
      _ ≤ pow2 ((x.num.natAbs.log2 : ℤ) - x.den.log2 + 1) * x.den :=
          mul_le_mul_of_nonneg_left hd1 (pow2_pos _).le

theorem pow2_binade_le {x : ℚ} (hx : x ≠ 0) : pow2 (binade x) ≤ |x| := by
  unfold binade
  simp only [magnitude_eq_abs]
  split_ifs with h
  · exact h
  · exact (abs_between_guesses hx).1

theorem abs_lt_pow2_binade {x : ℚ} (hx : x ≠ 0) : |x| < pow2 (binade x + 1) := by
  unfold binade
  simp only [magnitude_eq_abs]
  split_ifs with h
  · exact (abs_between_guesses hx).2
  · rw [sub_add_cancel]; exact not_le.mp h

/-- The binade is the only exponent whose power of two and the next one enclose the number. -/
theorem le_binade {x : ℚ} {k : ℤ} (hx : x ≠ 0) (h : pow2 k ≤ |x|) : k ≤ binade x := by
  have := pow2_lt.mp (h.trans_lt (abs_lt_pow2_binade hx))
  omega

theorem binade_lt {x : ℚ} {k : ℤ} (hx : x ≠ 0) (h : |x| < pow2 k) : binade x < k :=
  pow2_lt.mp ((pow2_binade_le hx).trans_lt h)

@[simp]
theorem binade_neg (x : ℚ) : binade (-x) = binade x := by
  unfold binade
  simp only [magnitude_eq_abs, abs_neg, Rat.neg_num, Rat.neg_den, Int.natAbs_neg]

/-! ## Places -/

theorem lowestPlace_le_lastPlace (x : ℚ) : lowestPlace ≤ lastPlace x := by
  unfold lastPlace
  split_ifs
  · exact le_rfl
  · exact le_max_right _ _

@[simp]
theorem lastPlace_neg (x : ℚ) : lastPlace (-x) = lastPlace x := by
  simp only [lastPlace, neg_eq_zero, binade_neg]

@[simp]
theorem spacing_pos (x : ℚ) : 0 < spacing x := pow2_pos _

/-- A number below `2 ^ (k + 53)` has its last place at `k` or lower, if the grid goes so low. -/
theorem spacing_le {x : ℚ} {k : ℤ} (hk : lowestPlace ≤ k) (h : |x| < pow2 (k + 53)) :
    spacing x ≤ pow2 k := by
  refine pow2_le.mpr ?_
  unfold lastPlace
  split_ifs with hx
  · exact hk
  · have := binade_lt hx h
    exact max_le (by omega) hk

/-- Fifty-three bits behind the last place hold the number. -/
theorem abs_lt_spacing (x : ℚ) : |x| < 2 ^ 53 * spacing x := by
  by_cases hx : x = 0
  · rw [hx, abs_zero]; exact mul_pos (by norm_num) (spacing_pos 0)
  · have hplace : binade x - 52 ≤ lastPlace x := by
      rw [lastPlace, if_neg hx]; exact le_max_left _ _
    calc |x| < pow2 (binade x + 1) := abs_lt_pow2_binade hx
      _ ≤ pow2 ((53 : ℕ) + lastPlace x) := pow2_le.mpr (by push_cast; omega)
      _ = 2 ^ 53 * spacing x := by rw [pow2_add, pow2_natCast, spacing]


/-! ## Rounding to a whole number -/

@[simp]
theorem floor_eq (x : ℚ) : x.floor = ⌊x⌋ := rfl

theorem floor_bounds (x : ℚ) : (x.floor : ℚ) ≤ x ∧ x < x.floor + 1 :=
  ⟨Int.floor_le x, Int.lt_floor_add_one x⟩

/-- Rounding to a whole number misses by at most a half. -/
theorem abs_sub_roundEven_le (x : ℚ) : |x - roundEven x| ≤ 1 / 2 := by
  obtain ⟨hlow, hhigh⟩ := floor_bounds x
  unfold roundEven
  dsimp only
  split_ifs <;> push_cast <;> rw [abs_le] <;> constructor <;> linarith

/-- A whole number less than a half away is the rounded one. -/
theorem roundEven_eq_of_abs_lt {x : ℚ} {n : ℤ} (h : |x - n| < 1 / 2) : roundEven x = n := by
  have hround := abs_le.mp (abs_sub_roundEven_le x)
  obtain ⟨h1, h2⟩ := abs_lt.mp h
  have hlow : (n : ℚ) - 1 < roundEven x := by linarith
  have hhigh : (roundEven x : ℚ) < n + 1 := by linarith
  have hlow' : n - 1 < roundEven x := by exact_mod_cast hlow
  have hhigh' : roundEven x < n + 1 := by exact_mod_cast hhigh
  omega

/-- Half-way cases go to the even neighbour. -/
theorem roundEven_half (n : ℤ) : roundEven (n + 1 / 2) = if n % 2 = 0 then n else n + 1 := by
  have hfloor : (n + 1 / 2 : ℚ).floor = n := by
    rw [floor_eq, Int.floor_eq_iff]
    constructor <;> linarith
  simp only [roundEven, hfloor, add_sub_cancel_left, lt_irrefl, if_false]

@[simp]
theorem roundEven_neg (x : ℚ) : roundEven (-x) = -roundEven x := by
  obtain ⟨hlow, hhigh⟩ := floor_bounds x
  set n := x.floor with hn
  rcases lt_trichotomy (x - n) (1 / 2) with h | h | h
  · have h1 : roundEven x = n := roundEven_eq_of_abs_lt (by rw [abs_lt]; constructor <;> linarith)
    rw [h1]
    exact roundEven_eq_of_abs_lt (by push_cast; rw [abs_lt]; constructor <;> linarith)
  · have h1 : x = n + 1 / 2 := by linarith
    have h2 : -x = ((-n - 1 : ℤ) : ℚ) + 1 / 2 := by push_cast; linarith
    rw [h2, roundEven_half, h1, roundEven_half]
    split_ifs <;> omega
  · have h1 : roundEven x = n + 1 :=
      roundEven_eq_of_abs_lt (by push_cast; rw [abs_lt]; constructor <;> linarith)
    rw [h1]
    exact roundEven_eq_of_abs_lt (by push_cast; rw [abs_lt]; constructor <;> linarith)

/-- No whole number is nearer than the rounded one. -/
theorem abs_sub_roundEven_le_of_int (x : ℚ) (n : ℤ) : |x - roundEven x| ≤ |x - n| := by
  by_cases h : |x - n| < 1 / 2
  · rw [roundEven_eq_of_abs_lt h]
  · exact (abs_sub_roundEven_le x).trans (not_lt.mp h)

/-! ## Points of the grid -/

/-- The points of the grid: whole numbers of at most 53 bits, in units of a power of two that is not
below the lowest place. -/
def OnGrid (x : ℚ) : Prop :=
  ∃ m k : ℤ, |m| ≤ 2 ^ 53 ∧ lowestPlace ≤ k ∧ x = m * pow2 k

theorem onGrid_intCast {n : ℤ} (h : |n| ≤ 2 ^ 53) : OnGrid n :=
  ⟨n, 0, h, by decide, by rw [pow2, zpow_zero, mul_one]⟩

theorem onGrid_pow2 {k : ℤ} (h : lowestPlace ≤ k) : OnGrid (pow2 k) :=
  ⟨1, k, by norm_num, h, by rw [Int.cast_one, one_mul]⟩

theorem onGrid_natCast_mul_pow2 {n : ℕ} {k : ℤ} (h : n ≤ 2 ^ 53) (hk : lowestPlace ≤ k) :
    OnGrid (n * pow2 k) := by
  refine ⟨n, k, ?_, hk, by rw [Int.cast_natCast]⟩
  rw [Nat.abs_cast]
  exact_mod_cast h

theorem onGrid_natCast {n : ℕ} (h : n ≤ 2 ^ 53) : OnGrid n := by
  have hzero := onGrid_natCast_mul_pow2 h (by decide : lowestPlace ≤ 0)
  rwa [pow2, zpow_zero, mul_one] at hzero

theorem OnGrid.neg {x : ℚ} (h : OnGrid x) : OnGrid (-x) := by
  obtain ⟨m, k, hm, hk, rfl⟩ := h
  exact ⟨-m, k, by rwa [abs_neg], hk, by push_cast; ring⟩

/-- A point of the grid is a whole multiple of a place if that is the lowest, or if the point is as
great as the numbers of 53 bits with this last place. -/
theorem OnGrid.eq_mul {g : ℚ} (h : OnGrid g) {e : ℤ} (he : e = lowestPlace ∨ pow2 (e + 52) ≤ |g|) :
    ∃ m : ℤ, g = m * pow2 e := by
  obtain ⟨m, k, hm, hk, rfl⟩ := h
  by_cases hek : e ≤ k
  · refine ⟨m * 2 ^ (k - e).toNat, ?_⟩
    rw [pow2_eq_mul hek]; push_cast; ring
  · have hge : pow2 (e + 52) ≤ |m * pow2 k| := he.resolve_left (by omega)
    -- the bits run out at the place below, so only the greatest number of 53 bits is left
    have hle : |m * pow2 k| ≤ pow2 (e + 52) := by
      have hm' : |(m : ℚ)| ≤ 2 ^ 53 := by exact_mod_cast hm
      calc |m * pow2 k| = |(m : ℚ)| * pow2 k := by rw [abs_mul, abs_of_pos (pow2_pos k)]
        _ ≤ pow2 (53 : ℕ) * pow2 (e - 1) := by
            rw [pow2_natCast]
            exact mul_le_mul hm' (pow2_le.mpr (by omega)) (pow2_pos k).le (by positivity)
        _ = pow2 (e + 52) := by rw [← pow2_add]; congr 1; push_cast; ring
    have hsize : pow2 (e + 52) = ((2 ^ 52 : ℤ) : ℚ) * pow2 e := by
      rw [add_comm, pow2_add, show (52 : ℤ) = (52 : ℕ) from rfl, pow2_natCast]; push_cast; rfl
    rcases abs_eq (pow2_pos _).le |>.mp (le_antisymm hle hge) with heq | heq
    · exact ⟨2 ^ 52, heq.trans hsize⟩
    · refine ⟨-2 ^ 52, heq.trans ?_⟩
      rw [hsize]; push_cast; ring

/-! ## Rounding to the grid -/

@[simp]
theorem nearest_neg (x : ℚ) : nearest (-x) = -nearest x := by
  simp only [nearest, spacing, lastPlace_neg, neg_div, roundEven_neg, Int.cast_neg, neg_mul]

/-- The distance to the rounded number, in units of the spacing. -/
theorem abs_sub_nearest (x : ℚ) :
    |x - nearest x| = |x / spacing x - roundEven (x / spacing x)| * spacing x := by
  rw [← abs_of_pos (spacing_pos x), ← abs_mul, abs_of_pos (spacing_pos x), sub_mul,
    div_mul_cancel₀ x (spacing_pos x).ne', nearest]

/-- Rounding misses by at most half the spacing. -/
theorem abs_sub_nearest_le (x : ℚ) : |x - nearest x| ≤ spacing x / 2 := by
  rw [abs_sub_nearest]
  have := mul_le_mul_of_nonneg_right (abs_sub_roundEven_le (x / spacing x)) (spacing_pos x).le
  linarith

/-- A number below `2 ^ (k + 53)` is missed by at most half a unit of place `k`. -/
theorem abs_sub_nearest_le_of_lt {x : ℚ} {k : ℤ} (hk : lowestPlace ≤ k)
    (h : |x| < pow2 (k + 53)) : |x - nearest x| ≤ pow2 k / 2 := by
  have herror := abs_sub_nearest_le x
  have hspacing := spacing_le hk h
  linarith

/-- A number below `2 ^ (53 - places)` is rounded by at most half a unit, so many places behind the
point. -/
theorem abs_nearest_sub_le {x : ℚ} (places : ℕ) (hplaces : places ≤ 53)
    (h : |x| < 2 ^ (53 - places)) : |nearest x - x| ≤ 1 / 2 ^ (places + 1) := by
  have hsize : |x| < pow2 (-places + 53) := by
    rw [show (-places + 53 : ℤ) = (53 - places : ℕ) by omega, pow2_natCast]
    exact h
  have hunit : pow2 (-places) / 2 = 1 / 2 ^ (places + 1) := by
    rw [pow2, zpow_neg, zpow_natCast, pow_succ]
    field_simp
  have herror := abs_sub_nearest_le_of_lt (by rw [lowestPlace]; omega) hsize
  rwa [abs_sub_comm, hunit] at herror

theorem abs_nearest_sub_le_of_nonneg {x : ℚ} (places : ℕ) (hplaces : places ≤ 53) (hx : 0 ≤ x)
    (h : x < 2 ^ (53 - places)) : |nearest x - x| ≤ 1 / 2 ^ (places + 1) :=
  abs_nearest_sub_le places hplaces (by rwa [abs_of_nonneg hx])

/-- From one on, rounding misses by at most one part in `2 ^ 53`. -/
theorem abs_sub_nearest_le_of_one_le {x : ℚ} (h : 1 ≤ x) : |x - nearest x| ≤ x / 2 ^ 53 := by
  have hne : x ≠ 0 := by linarith
  have habs : |x| = x := abs_of_nonneg (by linarith)
  have hle : pow2 (binade x) ≤ x := (pow2_binade_le hne).trans_eq habs
  have hbinade : 0 ≤ binade x := le_binade hne (by rwa [habs, pow2, zpow_zero])
  have hplace : lastPlace x = binade x + -52 := by
    rw [lastPlace, if_neg hne, lowestPlace]
    omega
  have hspacing : spacing x ≤ x / 2 ^ 52 := by
    rw [spacing, hplace, pow2_add, show pow2 (-52) = 1 / 2 ^ 52 by norm_num [pow2], mul_one_div]
    exact div_le_div_of_nonneg_right hle (by norm_num)
  have herror := abs_sub_nearest_le x
  linarith

/-- No whole multiple of the spacing is nearer than the rounded number. -/
theorem abs_sub_nearest_le_of_mul (x : ℚ) (m : ℤ) : |x - nearest x| ≤ |x - m * spacing x| := by
  have hmul : |x - m * spacing x| = |x / spacing x - m| * spacing x := by
    rw [← abs_of_pos (spacing_pos x), ← abs_mul, abs_of_pos (spacing_pos x), sub_mul,
      div_mul_cancel₀ x (spacing_pos x).ne']
  rw [abs_sub_nearest, hmul]
  exact mul_le_mul_of_nonneg_right (abs_sub_roundEven_le_of_int _ m) (spacing_pos x).le

theorem onGrid_nearest (x : ℚ) : OnGrid (nearest x) := by
  refine ⟨roundEven (x / spacing x), lastPlace x, ?_, lowestPlace_le_lastPlace x, rfl⟩
  have hsmall : |x / spacing x| < 2 ^ 53 := by
    rw [abs_div, abs_of_pos (spacing_pos x), div_lt_iff₀ (spacing_pos x)]
    exact abs_lt_spacing x
  have hround := abs_sub_roundEven_le (x / spacing x)
  have hlt : (|roundEven (x / spacing x)| : ℚ) < 2 ^ 53 + 1 := by
    have := abs_sub_abs_le_abs_sub (roundEven (x / spacing x) : ℚ) (x / spacing x)
    rw [abs_sub_comm] at this
    linarith
  have hlt' : |roundEven (x / spacing x)| < 2 ^ 53 + 1 := by exact_mod_cast hlt
  omega

/-- No point of the grid is nearer than the rounded number. -/
theorem abs_sub_nearest_le_of_onGrid (x : ℚ) {g : ℚ} (hg : OnGrid g) :
    |x - nearest x| ≤ |x - g| := by
  by_cases hx : x = 0
  · rw [hx, nearest_zero, sub_zero, abs_zero]; exact abs_nonneg _
  by_cases hplace : lastPlace x = lowestPlace ∨ pow2 (lastPlace x + 52) ≤ |g|
  · obtain ⟨m, rfl⟩ := hg.eq_mul hplace
    exact abs_sub_nearest_le_of_mul x m
  -- otherwise the least number of the binade of `x` lies between the two, and is a multiple
  · obtain ⟨hne, hlt⟩ := not_or.mp hplace
    have hlast : lastPlace x + 52 = binade x := by
      have hmax : lastPlace x = max (binade x - 52) lowestPlace := by rw [lastPlace, if_neg hx]
      omega
    rw [hlast, not_le] at hlt
    have hbinade := pow2_binade_le hx
    have hmul : pow2 (binade x) = ((2 ^ 52 : ℤ) : ℚ) * spacing x := by
      rw [← hlast, add_comm, pow2_add, spacing, show (52 : ℤ) = (52 : ℕ) from rfl, pow2_natCast]
      push_cast; rfl
    have hfar : |x| - pow2 (binade x) ≤ |x - g| := by
      have := abs_sub_abs_le_abs_sub x g
      linarith
    rcases le_total 0 x with hsign | hsign
    · have hcut := abs_sub_nearest_le_of_mul x (2 ^ 52)
      rw [← hmul] at hcut
      have habs : |x - pow2 (binade x)| = |x| - pow2 (binade x) := by
        rw [abs_of_nonneg hsign] at hbinade ⊢
        exact abs_of_nonneg (sub_nonneg.mpr hbinade)
      linarith
    · have hcut := abs_sub_nearest_le_of_mul x (-2 ^ 52)
      rw [Int.cast_neg, neg_mul, ← hmul, sub_neg_eq_add] at hcut
      have habs : |x + pow2 (binade x)| = |x| - pow2 (binade x) := by
        rw [abs_of_nonpos hsign] at hbinade ⊢
        rw [abs_of_nonpos (by linarith)]; ring
      linarith

/-- Rounding keeps the points of the grid. -/
@[simp]
theorem nearest_of_onGrid {x : ℚ} (h : OnGrid x) : nearest x = x := by
  have := abs_sub_nearest_le_of_onGrid x h
  rw [sub_self, abs_zero] at this
  exact (sub_eq_zero.mp (abs_nonpos_iff.mp this)).symm

@[simp]
theorem nearest_natCast {n : ℕ} (h : n ≤ 2 ^ 53) : nearest n = n :=
  nearest_of_onGrid (onGrid_natCast h)

/-- Rounding is monotone. -/
theorem nearest_mono : Monotone nearest := by
  intro x y hxy
  by_contra hlt
  rw [not_le] at hlt
  -- each number is at least as near to its own rounding as to the other's
  have hx := abs_sub_nearest_le_of_onGrid x (onGrid_nearest y)
  have hy := abs_sub_nearest_le_of_onGrid y (onGrid_nearest x)
  have hne : x ≠ y := fun h => by rw [h] at hlt; exact lt_irrefl _ hlt
  have hmid : y ≤ x := by
    have h1 := mul_self_le_mul_self (abs_nonneg _) hx
    have h2 := mul_self_le_mul_self (abs_nonneg _) hy
    rw [abs_mul_abs_self, abs_mul_abs_self] at h1 h2
    nlinarith
  exact hne (le_antisymm hxy hmid)

theorem le_nearest {g x : ℚ} (hg : OnGrid g) (h : g ≤ x) : g ≤ nearest x :=
  (nearest_of_onGrid hg).symm.trans_le (nearest_mono h)

theorem nearest_le {g x : ℚ} (hg : OnGrid g) (h : x ≤ g) : nearest x ≤ g :=
  (nearest_mono h).trans_eq (nearest_of_onGrid hg)

/-! ## Scaling by powers of two -/

theorem binade_mul_pow2 {x : ℚ} (hx : x ≠ 0) (k : ℤ) : binade (x * pow2 k) = binade x + k := by
  have hscaled : x * pow2 k ≠ 0 := mul_ne_zero hx (pow2_pos k).ne'
  have habs : |x * pow2 k| = |x| * pow2 k := by rw [abs_mul, abs_of_pos (pow2_pos k)]
  have hlow : binade x + k ≤ binade (x * pow2 k) := by
    refine le_binade hscaled ?_
    rw [habs, pow2_add]
    exact mul_le_mul_of_nonneg_right (pow2_binade_le hx) (pow2_pos k).le
  have hhigh : binade (x * pow2 k) < binade x + 1 + k := by
    refine binade_lt hscaled ?_
    rw [habs, pow2_add]
    exact mul_lt_mul_of_pos_right (abs_lt_pow2_binade hx) (pow2_pos k)
  omega

/-- From this power of two on, numbers have all their 53 bits. -/
def leastNormal : ℚ := pow2 (lowestPlace + 52)

theorem lastPlace_of_leastNormal_le {x : ℚ} (h : leastNormal ≤ |x|) :
    x ≠ 0 ∧ lastPlace x = binade x - 52 := by
  have hx : x ≠ 0 := by
    rintro rfl
    rw [abs_zero] at h
    exact absurd h (not_le.mpr (pow2_pos _))
  have hbinade := le_binade hx h
  refine ⟨hx, ?_⟩
  rw [lastPlace, if_neg hx]
  omega

/-- Rounding commutes with scaling by a power of two, as long as no bit is lost. -/
theorem nearest_mul_pow2 {x : ℚ} {k : ℤ} (h : leastNormal ≤ |x|)
    (hscaled : leastNormal ≤ |x * pow2 k|) : nearest (x * pow2 k) = nearest x * pow2 k := by
  obtain ⟨hx, hplace⟩ := lastPlace_of_leastNormal_le h
  obtain ⟨_, hplaceScaled⟩ := lastPlace_of_leastNormal_le hscaled
  have hspacing : spacing (x * pow2 k) = spacing x * pow2 k := by
    rw [spacing, spacing, ← pow2_add, hplaceScaled, hplace, binade_mul_pow2 hx]
    congr 1
    ring
  rw [nearest, nearest, hspacing, mul_div_mul_right _ _ (pow2_pos k).ne', mul_assoc]

theorem nearest_natCast_mul_pow2 {n k : ℕ} (h : n * 2 ^ k ≤ 2 ^ 53) :
    nearest (n * 2 ^ k : ℕ) = n * pow2 k := by
  rw [nearest_natCast h, pow2_natCast]
  push_cast
  rfl

end Ringtone.Number
