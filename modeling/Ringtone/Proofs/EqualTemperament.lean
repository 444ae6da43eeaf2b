import Ringtone.Proofs.FractionalPowers
import Ringtone.Proofs.NoteGrammar
import Ringtone.Proofs.Traversal

/-!
# Equal temperament

A semitone multiplies the frequency by the twelfth root of two, and the way from a pitch to whole
Hertz has four roundings: of the exponent, of the power, of the product with the tuning and of the
sum with a half. The ratios stay so near to the exact ones that a higher pitch has the greater
ratio, and since each rounding is monotone, neither a higher pitch nor a higher tuning gives a lower
frequency. For tunings up to `2 ^ 32` the four roundings together are far less than a hundredth of a
Hertz, and what they add to the half of rounding to whole Hertz leaves a frequency less than 0.51
Hertz from the exact one.
-/

namespace Ringtone

open Number

namespace Pitch

/-! ## Ratios -/

/-- The ratio of equal temperament, as it is. -/
noncomputable def exactRatio (pitch : Pitch) : ℝ := exactPower (pitch.offset / 12)

theorem exactRatio_pos (pitch : Pitch) : 0 < pitch.exactRatio := exactPower_pos _

/-- Twelve semitones are an octave. -/
theorem exactRatio_pow (pitch : Pitch) : pitch.exactRatio ^ 12 = 2 ^ pitch.offset := by
  rw [exactRatio, exactPower_pow, Nat.cast_ofNat, div_mul_cancel₀ _ (by norm_num),
    exactPower_intCast, pow2, Rat.cast_zpow, Rat.cast_ofNat]

theorem exactRatio_le (pitch : Pitch) : pitch.exactRatio ≤ 2 ^ 5 := by
  have hoffset : (pitch.offset : ℚ) ≤ 50 := by exact_mod_cast pitch.offset_bounds.2
  have hle := exactPower_le (by linarith : (pitch.offset / 12 : ℚ) ≤ (5 : ℤ))
  rw [exactPower_intCast] at hle
  exact hle.trans_eq (by norm_num [pow2])

/-- A semitone makes the ratio greater by more than a hundredth. -/
theorem exactRatio_of_lt {p q : Pitch} (h : p.offset < q.offset) :
    p.exactRatio * (1 + 1 / 100) ≤ q.exactRatio := by
  have hsemitone : 1 + 1 / 100 ≤ exactPower (1 / 12) := by
    have hoctave : exactPower (1 / 12) ^ 12 = 2 := by
      rw [exactPower_pow]
      norm_num [exactPower]
    refine (pow_le_pow_iff_left₀ (by norm_num) (exactPower_pos _).le (by norm_num : 12 ≠ 0)).mp ?_
    rw [hoctave]
    norm_num
  have hnext : (p.offset + 1 : ℚ) ≤ q.offset := by exact_mod_cast h
  calc p.exactRatio * (1 + 1 / 100) ≤ p.exactRatio * exactPower (1 / 12) :=
        mul_le_mul_of_nonneg_left hsemitone p.exactRatio_pos.le
    _ = exactPower (p.offset / 12 + 1 / 12) := (exactPower_add _ _).symm
    _ ≤ q.exactRatio := exactPower_le (by linarith)

/-- The ratio is the power of the exponent, to less than one unit of the last place. -/
theorem ratioValue_isNearPower (pitch : Pitch) : IsNearPower pitch.ratioValue pitch.exponent := by
  obtain ⟨hlow, hhigh⟩ := pitch.floor_exponent_bounds
  have hgrid : OnGrid pitch.exponent := onGrid_nearest _
  obtain ⟨r, hr, hnear⟩ := powerOfTwo_near hgrid (by omega) (by omega)
  rw [ratioValue_eq hr]
  exact hnear

/-- All numbers so near to the power are near to the exact ratio. -/
theorem abs_sub_exactRatio_le (pitch : Pitch) {r : ℚ} (h : IsNearPower r pitch.exponent) :
    |r - pitch.exactRatio| ≤ pitch.exactRatio / 2 ^ 49 := by
  refine h.abs_sub_exactPower_le ?_
  obtain ⟨hlow, hhigh⟩ := pitch.offset_bounds
  have hlow' : (-57 : ℚ) ≤ pitch.offset := by exact_mod_cast hlow
  have hhigh' : (pitch.offset : ℚ) ≤ 50 := by exact_mod_cast hhigh
  rw [abs_lt]
  constructor <;> linarith

/-- A higher pitch has the greater ratio, since the exact ratios are too far apart for their errors
to meet. -/
theorem ratioValue_mono {p q : Pitch} (h : p.offset ≤ q.offset) :
    p.ratioValue ≤ q.ratioValue := by
  rcases h.eq_or_lt with heq | hlt
  · rw [ratioValue, ratioValue, ratio, ratio, heq]
  · have hp := (abs_le.mp (p.abs_sub_exactRatio_le p.ratioValue_isNearPower)).2
    have hq := (abs_le.mp (q.abs_sub_exactRatio_le q.ratioValue_isNearPower)).1
    have hgap := exactRatio_of_lt hlt
    have hpos := p.exactRatio_pos
    have hle : (p.ratioValue : ℝ) ≤ q.ratioValue := by linarith
    exact_mod_cast hle

end Pitch

/-! ## Whole Hertz -/

/-- The whole Hertz of a tuning and a ratio that are on the grid. -/
def wholeHertz (tuning ratio : ℚ) : ℤ := ⌊nearest (nearest (tuning * ratio) + 1 / 2)⌋

theorem wholeHertz_mono {t u r s : ℚ} (h : t * r ≤ u * s) : wholeHertz t r ≤ wholeHertz u s := by
  have hproduct : nearest (t * r) ≤ nearest (u * s) := nearest_mono h
  exact Int.floor_mono (nearest_mono (by linarith))

theorem wholeHertz_nonneg {t r : ℚ} (ht : 0 ≤ t) (hr : 0 ≤ r) : 0 ≤ wholeHertz t r := by
  have hproduct := nearest_nonneg (mul_nonneg ht hr)
  exact Int.floor_nonneg.mpr (nearest_nonneg (by linarith))

/-- Below `2 ^ 38` the two roundings move a frequency by at most `2 ^ -14`, and cutting off behind
the half does the rest. -/
theorem abs_wholeHertz_sub_le {t r : ℚ} (hproduct : 0 ≤ t * r) (h : t * r < 2 ^ 38) :
    |wholeHertz t r - t * r| ≤ 1 / 2 + 1 / 2 ^ 14 := by
  have hround := abs_nearest_sub_le_of_nonneg 14 (by norm_num) hproduct (h.trans (by norm_num))
  obtain ⟨hbelow, habove⟩ := abs_le.mp hround
  have hnonneg := nearest_nonneg hproduct
  have hsum := abs_nearest_sub_le_of_nonneg (x := nearest (t * r) + 1 / 2) 14 (by norm_num)
    (by linarith) (by norm_num at *; linarith)
  obtain ⟨hbelow', habove'⟩ := abs_le.mp hsum
  have hle := Int.floor_le (nearest (nearest (t * r) + 1 / 2))
  have hlt := Int.lt_floor_add_one (nearest (nearest (t * r) + 1 / 2))
  rw [wholeHertz, abs_le]
  constructor <;> linarith

namespace Pitch

theorem hertz_eq (pitch : Pitch) (tuning : ℕ) :
    pitch.hertz tuning = wholeHertz (nearest tuning) pitch.ratioValue := rfl

theorem frequencyOf_of_within (pitch : Pitch) {tuning : ℕ} (hpos : 0 < tuning)
    (h : ¬ pitch.Overflows tuning) :
    frequencyOf (.ofChars pitch.key) (.int tuning) = .ok (pitch.hertz tuning) := by
  rw [frequencyOf_key]
  show ofNumber (pitch.frequency (.whole tuning)) = _
  rw [frequency_eq_ok pitch hpos h]
  rfl

theorem frequencyOf_of_overflows (pitch : Pitch) {tuning : ℕ} (hpos : 0 < tuning)
    (h : pitch.Overflows tuning) :
    frequencyOf (.ofChars pitch.key) (.int tuning) = .error (.number .tooLarge) := by
  rw [frequencyOf_key]
  show ofNumber (pitch.frequency (.whole tuning)) = _
  rw [frequency_eq_error pitch hpos h]
  rfl

theorem frequencyOf_eq_ok_iff (pitch : Pitch) {tuning : ℕ} {frequency : ℤ} (hpos : 0 < tuning) :
    frequencyOf (.ofChars pitch.key) (.int tuning) = .ok frequency ↔
      ¬ pitch.Overflows tuning ∧ pitch.hertz tuning = frequency := by
  by_cases hover : pitch.Overflows tuning
  · rw [pitch.frequencyOf_of_overflows hpos hover]
    simp [hover]
  · rw [pitch.frequencyOf_of_within hpos hover]
    simp [hover]

/-! ## Higher pitches and tunings -/

variable {p q : Pitch} {low high : ℕ}

theorem nearest_mul_ratioValue_mono (hoffset : p.offset ≤ q.offset) (hle : low ≤ high) :
    nearest low * p.ratioValue ≤ nearest high * q.ratioValue :=
  mul_le_mul (nearest_mono (by exact_mod_cast hle)) (ratioValue_mono hoffset)
    p.ratioValue_pos.le (nearest_nonneg high.cast_nonneg)

/-- What is beyond the range stays beyond it for a higher pitch and a higher tuning. -/
theorem Overflows.mono (hoffset : p.offset ≤ q.offset) (hle : low ≤ high) (h : p.Overflows low) :
    q.Overflows high := by
  rcases h with htuning | hproduct
  · exact Or.inl (htuning.trans hle)
  · exact Or.inr (hproduct.trans (nearest_mul_ratioValue_mono hoffset hle))

theorem hertz_mono (hoffset : p.offset ≤ q.offset) (hle : low ≤ high) :
    p.hertz low ≤ q.hertz high := by
  rw [hertz_eq, hertz_eq]
  exact wholeHertz_mono (nearest_mul_ratioValue_mono hoffset hle)

/-- A frequency that is had bounds those of lower pitches under lower tunings, which are had as
well. -/
theorem frequencyOf_mono (hoffset : p.offset ≤ q.offset) (hpos : 0 < low) (hle : low ≤ high)
    {frequency : ℤ} (h : frequencyOf (.ofChars q.key) (.int high) = .ok frequency) :
    ∃ lower ≤ frequency, frequencyOf (.ofChars p.key) (.int low) = .ok lower := by
  obtain ⟨hwithin, rfl⟩ := (q.frequencyOf_eq_ok_iff (hpos.trans_le hle)).mp h
  exact ⟨p.hertz low, hertz_mono hoffset hle,
    p.frequencyOf_of_within hpos fun hover => hwithin (hover.mono hoffset hle)⟩

/-- The F of the fourth octave at 440 and the F sharp at 441. -/
theorem frequencyOf_mono_semitone :
    (Pitch.mk 4 .f).offset ≤ (Pitch.mk 4 .fSharp).offset ∧ 0 < 440 ∧ 440 ≤ 441 ∧
      frequencyOf (.ofChars ['f', '#', '4']) (.int 441) = .ok 371 ∧
      ∃ lower ≤ 371, frequencyOf (.ofChars ['f', '4']) (.int 440) = .ok lower := by
  have hoffset : (Pitch.mk 4 .f).offset ≤ (Pitch.mk 4 .fSharp).offset := by decide
  have hhigh : frequencyOf (.ofChars ['f', '#', '4']) (.int 441) = .ok 371 :=
    eq_ok_of_toOption (by decide +kernel)
  exact ⟨hoffset, by norm_num, by norm_num, hhigh,
    frequencyOf_mono hoffset (by norm_num : 0 < 440) (by norm_num : 440 ≤ 441) hhigh⟩

/-! ## How far a frequency is from the exact one -/

/-- Whatever the last place of the ratio is, the frequency is less than 0.51 Hertz from the exact
one. -/
theorem abs_wholeHertz_sub_exact_lt (pitch : Pitch) {tuning : ℕ} {r : ℚ}
    (hnear : IsNearPower r pitch.exponent) (hr : 0 ≤ r) (hle : tuning ≤ 2 ^ 32) :
    |wholeHertz tuning r - tuning * pitch.exactRatio| < 51 / 100 := by
  have htuning : (tuning : ℝ) ≤ 2 ^ 32 := by exact_mod_cast hle
  have hpos := pitch.exactRatio_pos
  have hsmall := pitch.exactRatio_le
  -- the error of the ratio counts as often as the tuning says
  have hproduct : |(tuning * r : ℝ) - tuning * pitch.exactRatio| ≤ 1 / 2 ^ 12 := by
    rw [← mul_sub, abs_mul, Nat.abs_cast]
    calc tuning * |r - pitch.exactRatio| ≤ 2 ^ 32 * (2 ^ 5 / 2 ^ 49) := by
          refine mul_le_mul htuning ((pitch.abs_sub_exactRatio_le hnear).trans ?_) (abs_nonneg _)
            (by norm_num)
          exact div_le_div_of_nonneg_right hsmall (by norm_num)
      _ = 1 / 2 ^ 12 := by norm_num
  have hbound : (tuning * r : ℝ) < 2 ^ 38 := by
    have hexact : tuning * pitch.exactRatio ≤ 2 ^ 32 * 2 ^ 5 :=
      mul_le_mul htuning hsmall hpos.le (by norm_num)
    have habove := (abs_le.mp hproduct).2
    norm_num at hexact habove ⊢
    linarith
  have hwhole : |(wholeHertz tuning r : ℝ) - tuning * r| ≤ 1 / 2 + 1 / 2 ^ 14 := by
    have hcast := (Rat.cast_le (K := ℝ)).mpr
      (abs_wholeHertz_sub_le (mul_nonneg tuning.cast_nonneg hr) (by exact_mod_cast hbound))
    push_cast at hcast
    exact hcast
  have htotal := abs_sub_le (wholeHertz tuning r : ℝ) (tuning * r) (tuning * pitch.exactRatio)
  norm_num at hwhole hproduct ⊢
  linarith

/-- Under tunings up to `2 ^ 32` every pitch has a frequency, and it is less than 0.51 Hertz from the
tuning times two to the power of twelfths. Twelfth powers say so without a root. -/
theorem frequencyOf_tempered (pitch : Pitch) {tuning : ℕ} (hpos : 1 ≤ tuning)
    (hle : tuning ≤ 2 ^ 32) :
    ∃ n : ℕ, frequencyOf (.ofChars pitch.key) (.int tuning) = .ok n ∧
      (100 * tuning : ℚ) ^ 12 * 2 ^ pitch.offset < (100 * n + 51) ^ 12 ∧
      (1 ≤ n → (100 * n - 51) ^ 12 < (100 * tuning : ℚ) ^ 12 * 2 ^ pitch.offset) := by
  have hwithin : ¬ pitch.Overflows tuning :=
    pitch.not_overflows (hle.trans (pow_le_pow_right₀ one_le_two (by norm_num)))
  have hgrid : nearest tuning = tuning :=
    nearest_natCast (hle.trans (pow_le_pow_right₀ one_le_two (by norm_num)))
  obtain ⟨n, hn⟩ := Int.eq_ofNat_of_zero_le
    (wholeHertz_nonneg (tuning.cast_nonneg (α := ℚ)) pitch.ratioValue_pos.le)
  have hnear := pitch.abs_wholeHertz_sub_exact_lt pitch.ratioValue_isNearPower
    pitch.ratioValue_pos.le hle
  rw [hn, Int.cast_natCast, abs_lt] at hnear
  obtain ⟨hbelow, habove⟩ := hnear
  have hpower : ((100 * tuning) ^ 12 * 2 ^ pitch.offset : ℝ) =
      (100 * (tuning * pitch.exactRatio)) ^ 12 := by
    rw [← exactRatio_pow]
    ring
  refine ⟨n, ?_, (Rat.cast_lt (K := ℝ)).mp ?_, fun hone => (Rat.cast_lt (K := ℝ)).mp ?_⟩
  · rw [pitch.frequencyOf_of_within hpos hwithin, hertz_eq, hgrid, hn]
  · push_cast
    rw [hpower]
    refine pow_lt_pow_left₀ (by linarith) ?_ (by norm_num)
    exact mul_nonneg (by norm_num) (mul_nonneg tuning.cast_nonneg pitch.exactRatio_pos.le)
  · have hone' : (1 : ℝ) ≤ n := by exact_mod_cast hone
    push_cast
    rw [hpower]
    exact pow_lt_pow_left₀ (by linarith) (by linarith) (by norm_num)

/-- The C of the fourth octave at 440 is 261.63 Hertz. -/
theorem frequencyOf_tempered_c :
    1 ≤ 440 ∧ 440 ≤ 2 ^ 32 ∧ frequencyOf (.ofChars ['c', '4']) (.int 440) = .ok 262 ∧
      (100 * 440 : ℚ) ^ 12 * 2 ^ (-9 : ℤ) < (100 * 262 + 51) ^ 12 ∧
      (100 * 262 - 51) ^ 12 < (100 * 440 : ℚ) ^ 12 * 2 ^ (-9 : ℤ) := by
  have hc : frequencyOf (.ofChars ['c', '4']) (.int 440) = .ok 262 :=
    eq_ok_of_toOption (by decide +kernel)
  obtain ⟨n, hn, habove, hbelow⟩ :=
    frequencyOf_tempered ⟨4, .c⟩ (by norm_num : 1 ≤ 440) (by norm_num : 440 ≤ 2 ^ 32)
  obtain rfl : n = 262 := by exact_mod_cast Except.ok.inj (hn.symm.trans hc)
  exact ⟨by norm_num, by norm_num, hc, habove, hbelow (by norm_num)⟩

end Pitch

end Ringtone
