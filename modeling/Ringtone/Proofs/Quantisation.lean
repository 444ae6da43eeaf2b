import Ringtone.Proofs.WavReading

/-!
# What quantising makes of the values

Quantising goes by the value of a sample: a value is brought between minus one and one, scaled and
cut off behind the point. Each of these steps is monotone and odd and keeps within full scale, and
so is and does their composition, which is why two bytes always hold the result.
-/

namespace Ringtone.Sound

open Number

/-! ## Cutting off and bringing into range -/

/-- Above zero, cutting off goes to the whole number below. -/
theorem truncate_between {x : ℚ} (h : 0 ≤ x) :
    (0 : ℚ) ≤ truncate x ∧ (truncate x : ℚ) ≤ x ∧ x - truncate x < 1 := by
  rw [truncate_of_nonneg h]
  refine ⟨by exact_mod_cast Int.floor_nonneg.mpr h, Int.floor_le x, ?_⟩
  have := Int.lt_floor_add_one x
  linarith

theorem truncate_nonneg {x : ℚ} (h : 0 ≤ x) : 0 ≤ truncate x := by
  exact_mod_cast (truncate_between h).1

theorem truncate_mono : Monotone truncate := by
  intro x y hxy
  rcases le_or_gt 0 x with hx | hx
  · rw [truncate_of_nonneg hx, truncate_of_nonneg (hx.trans hxy)]
    exact Int.floor_mono hxy
  rcases le_or_gt 0 y with hy | hy
  · have hbelow := truncate_nonneg (neg_nonneg.mpr hx.le)
    rw [truncate_neg] at hbelow
    exact (by omega : truncate x ≤ 0).trans (truncate_nonneg hy)
  · have hfloors := Int.floor_mono (neg_le_neg hxy)
    rw [truncate, if_pos hx, truncate, if_pos hy, floor_eq, floor_eq]
    omega

theorem truncate_intCast (n : ℤ) : truncate n = n := by
  rw [truncate]
  split_ifs
  · rw [floor_eq, ← Int.cast_neg, Int.floor_intCast, neg_neg]
  · rw [floor_eq, Int.floor_intCast]

theorem clampRat_eq (x : ℚ) : clampRat x = max (-1) (min x 1) := by
  unfold clampRat
  split_ifs with hlow hhigh
  · rw [min_eq_left (by linarith), max_eq_left hlow.le]
  · rw [min_eq_right hhigh.le, max_eq_right (by norm_num)]
  · rw [min_eq_left (not_lt.mp hhigh), max_eq_right (not_lt.mp hlow)]

theorem clampRat_mono : Monotone clampRat := by
  intro x y hxy
  rw [clampRat_eq, clampRat_eq]
  exact max_le_max le_rfl (min_le_min hxy le_rfl)

theorem clampRat_neg (x : ℚ) : clampRat (-x) = -clampRat x := by
  unfold clampRat
  split_ifs <;> linarith

theorem clampRat_of_abs_le {x : ℚ} (h : |x| ≤ 1) : clampRat x = x := by
  obtain ⟨hlow, hhigh⟩ := abs_le.mp h
  rw [clampRat, if_neg (not_lt.mpr hlow), if_neg (not_lt.mpr hhigh)]

theorem clampRat_of_one_le {x : ℚ} (h : 1 ≤ x) : clampRat x = 1 := by
  rw [clampRat_eq, min_eq_right h, max_eq_right (by norm_num)]

/-! ## The level of a value -/

/-- The whole number of a sample of some value. -/
def level (value : ℚ) : ℤ := quantise (.finite value)

theorem level_eq (value : ℚ) : level value = truncate (nearest (clampRat value * fullScale)) := rfl

/-- A sample counts by its value alone, so that the two zeros are the same. -/
theorem quantise_eq_level {x : Binary64} {value : ℚ} (h : x.toRat? = some value) :
    quantise x = level value := by
  cases x with
  | finite _ => rw [level, Option.some.inj h]
  | negativeZero =>
    obtain rfl : 0 = value := Option.some.inj h
    rw [level_eq, clampRat_of_abs_le (by norm_num), zero_mul, nearest_zero]
    rfl
  | infinite _ => cases h
  | nan => cases h

theorem fullScale_pos : (0 : ℚ) < fullScale := by norm_num [fullScale]

theorem level_mono : Monotone level := fun _ _ hxy =>
  truncate_mono (nearest_mono (mul_le_mul_of_nonneg_right (clampRat_mono hxy) fullScale_pos.le))

theorem level_neg (x : ℚ) : level (-x) = -level x := by
  rw [level_eq, level_eq, clampRat_neg, neg_mul, nearest_neg, truncate_neg]

theorem level_of_one_le {x : ℚ} (h : 1 ≤ x) : level x = fullScale := by
  rw [level_eq, clampRat_of_one_le h, one_mul,
    nearest_of_onGrid (onGrid_intCast (by norm_num [fullScale])), truncate_intCast]

theorem level_of_abs_le {x : ℚ} (h : |x| ≤ 1) : level x = truncate (nearest (fullScale * x)) := by
  rw [level_eq, clampRat_of_abs_le h, mul_comm]

/-- A level on the near side of a scaled value, less than one step away from it. -/
structure CutsOff (scaled : ℚ) (n : ℤ) : Prop where
  /-- The level is not below zero, and not above the scaled value, when that is above zero. -/
  of_nonneg : 0 ≤ scaled → 0 ≤ n ∧ (n : ℚ) ≤ scaled
  /-- Nor is it above zero, or below the scaled value, when that is below zero. -/
  of_nonpos : scaled ≤ 0 → scaled ≤ n ∧ n ≤ 0
  within_a_step : |scaled - n| < 1

theorem cutsOff_truncate (x : ℚ) : CutsOff x (truncate x) := by
  have hneg : x ≤ 0 → x ≤ truncate x ∧ (truncate x : ℚ) ≤ 0 ∧ truncate x - x < 1 := by
    intro hx
    obtain ⟨hpos, hle, hstep⟩ := truncate_between (neg_nonneg.mpr hx)
    rw [truncate_neg, Int.cast_neg] at hpos hle hstep
    exact ⟨by linarith, by linarith, by linarith⟩
  refine ⟨fun hx => ⟨truncate_nonneg hx, (truncate_between hx).2.1⟩, fun hx => ?_, ?_⟩
  · exact ⟨(hneg hx).1, by exact_mod_cast (hneg hx).2.1⟩
  · rw [abs_lt]
    rcases le_total 0 x with hx | hx
    · obtain ⟨_, hle, hstep⟩ := truncate_between hx
      exact ⟨by linarith, hstep⟩
    · obtain ⟨hle, _, hstep⟩ := hneg hx
      exact ⟨by linarith, by linarith⟩

/-! ## The bytes of finite samples -/

/-- Samples with just these values, and so none that is infinite or not a number. -/
def HaveValues (samples : List Float) (values : List ℚ) : Prop :=
  List.Forall₂ (fun sample value => (Binary64.ofFloat sample).toRat? = some value) samples values

theorem quantiseAll_eq {samples : List Float} {values : List ℚ} (h : HaveValues samples values) :
    quantiseAll samples = values.map level := by
  induction h with
  | nil => rfl
  | cons hvalue _ ih => exact List.cons_eq_cons.mpr ⟨quantise_eq_level hvalue, ih⟩

/-- Samples with values take two bytes each, which read back, as whole numbers of sixteen bits in
two's complement, as the levels of the values. A level is at most full scale on either side, so that
it always fits; it is monotone and odd in the value, full scale from one on, and up to one what is
before the point of the scaled and rounded value. -/
theorem quantising_never_wraps {samples : List Float} {values : List ℚ}
    (h : HaveValues samples values) :
    (pcmBytes (quantiseAll samples)).length = 2 * samples.length ∧
      samplesAt (pcmBytes (quantiseAll samples)) 0 samples.length 2 16 = values.map level ∧
      (∀ value, -32767 ≤ level value ∧ level value ≤ 32767) ∧ Monotone level ∧
      (∀ value, level (-value) = -level value) ∧ (∀ value, 1 ≤ value → level value = 32767) ∧
      (∀ value, value ≤ -1 → level value = -32767) ∧
      ∀ value, |value| ≤ 1 → CutsOff (nearest (32767 * value)) (level value) := by
  have hlength : (quantiseAll samples).length = samples.length := List.length_map _
  refine ⟨?_, ?_, fun value => abs_le.mp (abs_quantise_le _), level_mono, level_neg,
    fun value => level_of_one_le, fun value hvalue => ?_, fun value hvalue => ?_⟩
  · rw [length_pcmBytes, hlength]
  · have hwhole : (pcmBytes (quantiseAll samples)).drop 0 = pcmBytes (quantiseAll samples) :=
      List.drop_zero
    rw [← quantiseAll_eq h, ← hlength]
    exact samplesAt_eq hwhole fun _ => abs_le_of_mem_quantiseAll
  · have hfull : level (-value) = fullScale := level_of_one_le (by linarith)
    rw [level_neg] at hfull
    exact neg_eq_iff_eq_neg.mp hfull
  · rw [level_of_abs_le hvalue]
    exact cutsOff_truncate _

/-- Halves are cut off towards zero on either side, and beyond one the samples stay at full scale,
one short of the least number of sixteen bits. -/
theorem quantising_never_wraps_beyond_one :
    HaveValues [0.5, -0.5, 1.5, -1.5] [1 / 2, -1 / 2, 3 / 2, -3 / 2] ∧
      (pcmBytes (quantiseAll [0.5, -0.5, 1.5, -1.5])).length = 8 ∧
      samplesAt (pcmBytes (quantiseAll [0.5, -0.5, 1.5, -1.5])) 0 4 2 16 =
        [16383, -16383, 32767, -32767] ∧
      CutsOff (nearest (32767 * (1 / 2))) 16383 := by
  have hvalues : HaveValues [0.5, -0.5, 1.5, -1.5] [1 / 2, -1 / 2, 3 / 2, -3 / 2] :=
    .cons (by decide +kernel) (.cons (by decide +kernel) (.cons (by decide +kernel)
      (.cons (by decide +kernel) .nil)))
  have hlevels : [1 / 2, -1 / 2, 3 / 2, -3 / 2].map level = [16383, -16383, 32767, -32767] := by
    decide +kernel
  have hhalf : level (1 / 2) = 16383 := by decide +kernel
  obtain ⟨hlength, hread, _, _, _, _, _, hcut⟩ := quantising_never_wraps hvalues
  refine ⟨hvalues, hlength, hread.trans hlevels, ?_⟩
  rw [← hhalf]
  exact hcut _ (by norm_num)

end Ringtone.Sound
