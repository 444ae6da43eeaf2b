import Ringtone.Proofs.ScoreRendering
import Ringtone.Proofs.Separation

/-!
# How far a length is from the exact one

The length of a note is rounded three times on its way, after tempo and fraction have been rounded
themselves, and cut off at the point in the end. Quotients of numbers from one on keep the error of
their divisors, so that the error of the whole way stays far below the distance that an exact length
keeps from the whole numbers next to it. A length is therefore never above the exact one, and at
most one millisecond below it.
-/

namespace Ringtone

open Number

/-- The exact length of a note in milliseconds. -/
def Fraction.exactMilliseconds (fraction : Fraction) (tempo : Tempo) : ℚ :=
  longestLength / (fraction.parts * tempo.beats)

/-! ## The error of the way -/

/-- A quotient by a number from one on is missed by no more than the divisor is, in parts of it. -/
theorem abs_div_sub_div_le {a x y e : ℚ} (ha : 0 ≤ a) (hx : 1 ≤ x) (hy : 1 ≤ y)
    (h : |x - y| ≤ x * e) : |a / y - a / x| ≤ a * e := by
  have hxpos : 0 < x := by linarith
  have hypos : 0 < y := by linarith
  have he : 0 ≤ e := nonneg_of_mul_nonneg_right ((abs_nonneg _).trans h) hxpos
  have hsplit : a / y - a / x = a * (x - y) / (x * y) := by
    field_simp
  calc |a / y - a / x| = a * |x - y| / (x * y) := by
        rw [hsplit, abs_div, abs_mul, abs_of_nonneg ha, abs_of_pos (mul_pos hxpos hypos)]
    _ ≤ a * (x * e) / (x * y) := by
        gcongr
    _ = a * e / y := by
        field_simp
    _ ≤ a * e := div_le_self (mul_nonneg ha he) hy

theorem abs_div_nearest_sub_le {a : ℚ} {n : ℕ} (ha : 0 ≤ a) (hn : 0 < n) :
    |a / nearest n - a / n| ≤ a / 2 ^ 53 := by
  have hone : (1 : ℚ) ≤ n := by exact_mod_cast hn
  have herror := abs_sub_nearest_le_of_one_le hone
  rw [div_eq_mul_one_div (n : ℚ)] at herror
  rw [div_eq_mul_one_div a (2 ^ 53)]
  exact abs_div_sub_div_le ha hone (one_le_nearest hn) herror

section

variable (fraction : Fraction) (tempo : Tempo)

/-- The seconds of a whole note, on the grid. -/
def Tempo.seconds : ℚ := nearest (secondTempo / nearest tempo.beats)

/-- The seconds of a note, on the grid. -/
def Fraction.seconds : ℚ := nearest (tempo.seconds / nearest fraction.parts)

theorem Tempo.abs_seconds_sub_le : |tempo.seconds - 240 / tempo.beats| ≤ 1 / 2 ^ 44 := by
  have hone := one_le_nearest tempo.beats_pos
  have hsize : 240 / nearest tempo.beats ≤ 240 := div_le_self (by norm_num) hone
  have hround := abs_nearest_sub_le_of_nonneg 45 (by norm_num)
    (by positivity : 0 ≤ 240 / nearest tempo.beats) (by linarith)
  have hdivisor := abs_div_nearest_sub_le (by norm_num : (0 : ℚ) ≤ 240) tempo.beats_pos
  have htotal := abs_sub_le (nearest (240 / nearest tempo.beats)) (240 / nearest tempo.beats)
    (240 / tempo.beats)
  rw [seconds, secondTempo]
  linarith

theorem Tempo.seconds_bounds : 0 ≤ tempo.seconds ∧ tempo.seconds ≤ 241 := by
  have hone : (1 : ℚ) ≤ tempo.beats := by exact_mod_cast tempo.beats_pos
  have hexact : 240 / (tempo.beats : ℚ) ≤ 240 := div_le_self (by norm_num) hone
  have herror := (abs_le.mp tempo.abs_seconds_sub_le).2
  have hdivisor := one_le_nearest tempo.beats_pos
  refine ⟨nearest_nonneg (div_nonneg (by norm_num [secondTempo]) (by linarith)), ?_⟩
  linarith

theorem Fraction.abs_seconds_sub_le :
    |fraction.seconds tempo - 240 / (fraction.parts * tempo.beats)| ≤ 1 / 2 ^ 42 := by
  obtain ⟨hnonneg, hle⟩ := tempo.seconds_bounds
  have hone := one_le_nearest fraction.parts_pos
  have hsize : tempo.seconds / nearest fraction.parts ≤ 241 := (div_le_self hnonneg hone).trans hle
  have hround := abs_nearest_sub_le_of_nonneg 45 (by norm_num)
    (div_nonneg hnonneg (by linarith) : 0 ≤ tempo.seconds / nearest fraction.parts) (by linarith)
  have hdivisor := abs_div_nearest_sub_le hnonneg fraction.parts_pos
  -- the error of the dividend is divided as well
  have hdividend : |tempo.seconds / fraction.parts - 240 / (fraction.parts * tempo.beats)| ≤
      1 / 2 ^ 44 := by
    have hparts : (1 : ℚ) ≤ fraction.parts := by exact_mod_cast fraction.parts_pos
    rw [mul_comm, ← div_div, ← sub_div, abs_div,
      abs_of_pos (by linarith : (0 : ℚ) < fraction.parts)]
    exact (div_le_self (abs_nonneg _) hparts).trans tempo.abs_seconds_sub_le
  have hfirst := abs_sub_le (fraction.seconds tempo) (tempo.seconds / nearest fraction.parts)
    (240 / (fraction.parts * tempo.beats))
  have hsecond := abs_sub_le (tempo.seconds / nearest fraction.parts)
    (tempo.seconds / fraction.parts) (240 / (fraction.parts * tempo.beats))
  rw [seconds] at hfirst ⊢
  linarith

theorem Fraction.seconds_bounds :
    0 ≤ fraction.seconds tempo ∧ fraction.seconds tempo ≤ 241 := by
  have hone : (1 : ℚ) ≤ fraction.parts * tempo.beats := by
    exact_mod_cast Nat.mul_pos fraction.parts_pos tempo.beats_pos
  have hexact : 240 / ((fraction.parts : ℚ) * tempo.beats) ≤ 240 := div_le_self (by norm_num) hone
  have herror := (abs_le.mp (fraction.abs_seconds_sub_le tempo)).2
  have hdivisor := one_le_nearest fraction.parts_pos
  refine ⟨nearest_nonneg (div_nonneg tempo.seconds_bounds.1 (by linarith)), ?_⟩
  linarith

/-- The milliseconds of a note, on the grid. -/
def Fraction.millisecondsOnGrid : ℚ := nearest (fraction.seconds tempo * 1000)

theorem Fraction.millisecondsOnGrid_nonneg : 0 ≤ fraction.millisecondsOnGrid tempo := by
  have hnote := (fraction.seconds_bounds tempo).1
  exact nearest_nonneg (by linarith)

theorem Fraction.milliseconds_eq :
    (fraction.milliseconds tempo : ℤ) = ⌊fraction.millisecondsOnGrid tempo⌋ := by
  have hnonneg := fraction.millisecondsOnGrid_nonneg tempo
  show ((truncate (fraction.millisecondsOnGrid tempo)).toNat : ℤ) = _
  rw [truncate_of_nonneg hnonneg, Int.toNat_of_nonneg (Int.floor_nonneg.mpr hnonneg)]

/-- The whole way gathers an error of at most `2 ^ -31` milliseconds. -/
theorem Fraction.abs_millisecondsOnGrid_sub_le :
    |fraction.millisecondsOnGrid tempo - fraction.exactMilliseconds tempo| ≤ 1 / 2 ^ 31 := by
  obtain ⟨hnonneg, hle⟩ := fraction.seconds_bounds tempo
  have hround := abs_nearest_sub_le_of_nonneg 35 (by norm_num)
    (by linarith : 0 ≤ fraction.seconds tempo * 1000) (by norm_num; linarith)
  have hseconds : |fraction.seconds tempo * 1000 - fraction.exactMilliseconds tempo| ≤
      1 / 2 ^ 42 * 1000 := by
    have hexact : fraction.exactMilliseconds tempo =
        240 / (fraction.parts * tempo.beats) * 1000 := by
      rw [exactMilliseconds, longestLength, div_mul_eq_mul_div]
      norm_num
    rw [hexact, ← sub_mul, abs_mul, abs_of_pos (by norm_num : (0 : ℚ) < 1000)]
    exact mul_le_mul_of_nonneg_right (fraction.abs_seconds_sub_le tempo) (by norm_num)
  have htotal := abs_sub_le (fraction.millisecondsOnGrid tempo) (fraction.seconds tempo * 1000)
    (fraction.exactMilliseconds tempo)
  rw [millisecondsOnGrid] at htotal ⊢
  linarith

end

/-! ## Cutting off -/

/-- A quotient of whole numbers keeps its distance from all whole numbers but itself, and from
zero. -/
theorem le_abs_sub_div {m d i : ℕ} (hd : 0 < d) (hi : 0 < i) (hne : i * d ≠ m) :
    1 / ((m : ℚ) + 1) ≤ |(i : ℚ) - m / d| := by
  have hdpos : (0 : ℚ) < d := by exact_mod_cast hd
  have hle : d ≤ i * d := Nat.le_mul_of_pos_left d hi
  have hsplit : (i : ℚ) - m / d = (i * d - m) / d := by
    rw [sub_div, mul_div_cancel_right₀ _ hdpos.ne']
  rw [hsplit, abs_div, abs_of_pos hdpos, div_le_div_iff₀ (by positivity) hdpos, one_mul]
  -- either way the divisor is no greater than the distance, times the dividend and one
  rcases lt_or_gt_of_ne hne with hlt | hgt
  · obtain ⟨k, rfl⟩ := Nat.exists_eq_add_of_lt hlt
    rw [abs_sub_comm]
    push_cast
    have hk : (0 : ℚ) ≤ k := k.cast_nonneg
    have hle' : (d : ℚ) ≤ i * d := by exact_mod_cast hle
    rw [abs_of_nonneg (by linarith)]
    nlinarith
  · obtain ⟨k, hk⟩ := Nat.exists_eq_add_of_lt hgt
    have hsum : (i : ℚ) * d = m + k + 1 := by exact_mod_cast hk
    have hle' : (d : ℚ) ≤ i * d := by exact_mod_cast hle
    have hknonneg : (0 : ℚ) ≤ k := k.cast_nonneg
    have hmnonneg : (0 : ℚ) ≤ m := m.cast_nonneg
    rw [hsum, abs_of_nonneg (by linarith)]
    nlinarith

/-- So a number that is nearer to the quotient than that is cut off to no more than the quotient,
and to less than its whole part only where it falls just below. -/
theorem floor_bounds_of_near {m d : ℕ} {y : ℚ} (hd : 0 < d) (hnonneg : 0 ≤ y)
    (hnear : |y - (m : ℚ) / d| < 1 / (m + 1)) : ⌊y⌋ ≤ (m : ℚ) / d ∧ (m : ℚ) / d - 1 ≤ ⌊y⌋ := by
  have hdpos : (0 : ℚ) < d := by exact_mod_cast hd
  obtain ⟨j, hj⟩ := Int.eq_ofNat_of_zero_le (Int.floor_nonneg.mpr hnonneg)
  have hle : (j : ℚ) ≤ y := by exact_mod_cast hj ▸ Int.floor_le y
  have hlt : y < j + 1 := by exact_mod_cast hj ▸ Int.lt_floor_add_one y
  obtain ⟨hlow, hhigh⟩ := abs_lt.mp hnear
  rw [hj, Int.cast_natCast]
  constructor
  · by_contra habove
    rw [not_le] at habove
    have hpos : 0 < j := by
      have : (0 : ℚ) < j := (by positivity : (0 : ℚ) ≤ (m : ℚ) / d).trans_lt habove
      exact_mod_cast this
    have hne : j * d ≠ m := by
      rintro rfl
      push_cast at habove
      rw [mul_div_cancel_right₀ _ hdpos.ne'] at habove
      exact lt_irrefl _ habove
    have hfar := le_abs_sub_div hd hpos hne
    rw [abs_of_pos (by linarith)] at hfar
    linarith
  · by_contra hbelow
    rw [not_le] at hbelow
    have hne : (j + 1) * d ≠ m := by
      rintro rfl
      push_cast at hbelow
      rw [mul_div_cancel_right₀ _ hdpos.ne'] at hbelow
      linarith
    have hfar := le_abs_sub_div hd j.succ_pos hne
    push_cast at hfar
    rw [abs_of_neg (by linarith)] at hfar
    linarith

/-- A length is never above the exact one, and at most one millisecond below it. -/
theorem Fraction.milliseconds_bounds (fraction : Fraction) (tempo : Tempo) :
    fraction.milliseconds tempo ≤ fraction.exactMilliseconds tempo ∧
      fraction.exactMilliseconds tempo - 1 ≤ fraction.milliseconds tempo := by
  have hexact : fraction.exactMilliseconds tempo =
      (longestLength : ℚ) / (fraction.parts * tempo.beats : ℕ) := by
    rw [exactMilliseconds, Nat.cast_mul]
  have herror := fraction.abs_millisecondsOnGrid_sub_le tempo
  have hsmall : (1 : ℚ) / 2 ^ 31 < 1 / (longestLength + 1) := by norm_num [longestLength]
  rw [hexact] at herror ⊢
  have hbounds := floor_bounds_of_near (Nat.mul_pos fraction.parts_pos tempo.beats_pos)
    (fraction.millisecondsOnGrid_nonneg tempo) (herror.trans_lt hsmall)
  rw [← fraction.milliseconds_eq] at hbounds
  exact_mod_cast hbounds

end Ringtone
