import Mathlib.Data.Nat.Sqrt
import Ringtone.Frequency
import Ringtone.Proofs.Range
import Ringtone.Proofs.Points

/-!
# Frequencies of pitches

The ratio of a pitch is a number between `2 ^ -5` and `2 ^ 6`, so that only the tuning can bring a
frequency beyond the range of binary64 numbers. Within the range the frequency is the product with
the ratio, rounded to the grid, plus a half, rounded again, and what is below the point is dropped.
-/

namespace Ringtone

open Number

namespace Number

/-! ## Powers of two with a fraction -/

/-- The chain of roots stays between one and two. -/
theorem powerOfBits_bounds (bits : List Bool) :
    fixedOne ≤ powerOfBits bits ∧ powerOfBits bits < 2 * fixedOne := by
  induction bits with
  | nil =>
    have : 0 < fixedOne := by decide
    simp only [powerOfBits]; omega
  | cons bit bits ih =>
    obtain ⟨hlow, hhigh⟩ := ih
    simp only [powerOfBits, Nat.le_sqrt, Nat.sqrt_lt]
    cases bit <;> simp only [if_true, if_false, Bool.false_eq_true] <;> constructor <;> nlinarith

/-- The power in fixed point, before it is rounded to the grid. -/
def fixedPower (e : ℚ) : ℚ :=
  powerOfBits (fractionBits (Int.fract e).num.natAbs (Int.fract e).den.log2) *
    pow2 (⌊e⌋ - powerPlaces)

theorem fixedOne_eq : (fixedOne : ℚ) = pow2 powerPlaces := by
  rw [fixedOne, pow2_natCast]; rfl

theorem fixedPower_bounds (e : ℚ) : pow2 ⌊e⌋ ≤ fixedPower e ∧ fixedPower e < pow2 (⌊e⌋ + 1) := by
  have hunit := pow2_pos (⌊e⌋ - powerPlaces)
  have hsplit : pow2 ⌊e⌋ = fixedOne * pow2 (⌊e⌋ - powerPlaces) := by
    rw [fixedOne_eq, ← pow2_add, add_sub_cancel]
  obtain ⟨hone, htwo⟩ := powerOfBits_bounds
    (fractionBits (Int.fract e).num.natAbs (Int.fract e).den.log2)
  constructor
  · rw [hsplit]
    exact mul_le_mul_of_nonneg_right (by exact_mod_cast hone) hunit.le
  · rw [add_comm, pow2_add, hsplit, ← mul_assoc, show pow2 1 = 2 from zpow_one 2]
    exact mul_lt_mul_of_pos_right (by exact_mod_cast htwo) hunit

theorem powerOfTwo_eq {e : ℚ} (hlow : -1074 ≤ ⌊e⌋) (hhigh : ⌊e⌋ < 1023) :
    powerOfTwo e = .finite (nearest (fixedPower e)) := by
  obtain ⟨hlower, hupper⟩ := fixedPower_bounds e
  have hround := le_nearest (onGrid_pow2 hlow) hlower
  have hlimit : pow2 (⌊e⌋ + 1) < rangeLimit := pow2_lt_rangeLimit (by omega)
  exact Binary64.ofRat_of_lt ((pow2_pos _).trans_le hround) (hupper.trans hlimit)

theorem powerOfTwo_bounds {e : ℚ} (hlow : -1074 ≤ ⌊e⌋) (hhigh : ⌊e⌋ < 1023) :
    ∃ r, powerOfTwo e = .finite r ∧ pow2 ⌊e⌋ ≤ r ∧ r ≤ pow2 (⌊e⌋ + 1) := by
  obtain ⟨hlower, hupper⟩ := fixedPower_bounds e
  refine ⟨_, powerOfTwo_eq hlow hhigh, le_nearest (onGrid_pow2 hlow) hlower,
    nearest_le (onGrid_pow2 ?_) hupper.le⟩
  exact hlow.trans (by omega)

end Number

namespace Pitch

/-! ## The ratio of a pitch -/

theorem offset_bounds (pitch : Pitch) : -57 ≤ pitch.offset ∧ pitch.offset ≤ 50 := by
  have hname : pitch.name.semitone ≤ 11 := by cases pitch.name <;> decide
  have hoctave := pitch.octave.isLt
  unfold offset lowest
  omega

/-- The exponent of the ratio, on the grid. -/
def exponent (pitch : Pitch) : ℚ := nearest (pitch.offset / 12)

theorem floor_exponent_bounds (pitch : Pitch) : -5 ≤ ⌊pitch.exponent⌋ ∧ ⌊pitch.exponent⌋ ≤ 5 := by
  obtain ⟨hlow, hhigh⟩ := pitch.offset_bounds
  have hlow' : (-57 : ℚ) ≤ pitch.offset := by exact_mod_cast hlow
  have hhigh' : (pitch.offset : ℚ) ≤ 50 := by exact_mod_cast hhigh
  have hbelow : ((-5 : ℤ) : ℚ) ≤ pitch.exponent :=
    le_nearest (onGrid_intCast (by norm_num)) (by push_cast; linarith)
  have habove : pitch.exponent ≤ ((5 : ℤ) : ℚ) :=
    nearest_le (onGrid_intCast (by norm_num)) (by push_cast; linarith)
  exact ⟨Int.le_floor.mpr hbelow, Int.floor_le_iff.mpr (by linarith)⟩

/-- The ratio as an exact number. -/
def ratioValue (pitch : Pitch) : ℚ := pitch.ratio.toRat?.getD 0

theorem ratioValue_eq {pitch : Pitch} {r : ℚ} (h : pitch.ratio = .finite r) :
    pitch.ratioValue = r := by
  rw [ratioValue, h]; rfl

theorem ratio_bounds (pitch : Pitch) :
    pitch.ratio = .finite pitch.ratioValue ∧ pow2 (-5) ≤ pitch.ratioValue ∧
      pitch.ratioValue ≤ pow2 6 := by
  obtain ⟨hlow, hhigh⟩ := pitch.floor_exponent_bounds
  obtain ⟨r, hr, hle, hge⟩ := powerOfTwo_bounds (e := pitch.exponent) (by omega) (by omega)
  rw [ratioValue_eq hr]
  exact ⟨hr, (pow2_le.mpr hlow).trans hle, hge.trans (pow2_le.mpr (by omega))⟩

theorem ratioValue_pos (pitch : Pitch) : 0 < pitch.ratioValue :=
  (pow2_pos _).trans_le pitch.ratio_bounds.2.1

/-! ## The frequency under a tuning -/

/-- A tuning under which the frequency of the pitch is beyond the range of binary64 numbers. -/
def Overflows (pitch : Pitch) (tuning : ℕ) : Prop :=
  rangeLimit ≤ tuning ∨ (rangeLimit : ℚ) ≤ nearest tuning * pitch.ratioValue

/-- The frequency of a pitch that the tuning keeps within the range. -/
def hertz (pitch : Pitch) (tuning : ℕ) : ℤ :=
  ⌊nearest (nearest (nearest tuning * pitch.ratioValue) + 1 / 2)⌋

theorem mul_ratio (pitch : Pitch) {tuning : ℕ} (h : 0 < tuning) :
    (Binary64.finite (nearest tuning)).mul pitch.ratio =
      .ofRat (nearest tuning * pitch.ratioValue) := by
  rw [pitch.ratio_bounds.1,
    Binary64.mul_of_pos (zero_lt_one.trans_le (one_le_nearest h)) pitch.ratioValue_pos]

theorem nearest_add_half_lt {x : ℚ} (h : x < rangeLimit) : nearest x + 1 / 2 < rangeLimit := by
  refine nearest_add_lt_rangeLimit h ?_
  calc (1 / 2 : ℚ) = pow2 (-1) := by norm_num [pow2]
    _ < pow2 970 := pow2_lt.mpr (by norm_num)

theorem frequency_eq_ok (pitch : Pitch) {tuning : ℕ} (hpos : 0 < tuning)
    (h : ¬ pitch.Overflows tuning) :
    pitch.frequency (.whole tuning) = .ok (pitch.hertz tuning) := by
  obtain ⟨htuning, hproduct⟩ := not_or.mp h
  rw [not_le] at htuning hproduct
  have hone := one_le_nearest hpos
  have hpositive : 0 < nearest (nearest tuning * pitch.ratioValue) := by
    refine (pow2_pos (-5)).trans_le (le_nearest (onGrid_pow2 (by decide)) ?_)
    exact pitch.ratio_bounds.2.1.trans (le_mul_of_one_le_left pitch.ratioValue_pos.le hone)
  have hroom := nearest_add_half_lt hproduct
  have htoReal := Binary64.toReal_whole (n := tuning) (by simpa using htuning)
  rw [Int.cast_natCast] at htoReal
  rw [frequency, htoReal]
  show ((Binary64.mul _ _).add _).floor? = _
  rw [mul_ratio pitch hpos, Binary64.ofRat_of_lt hpositive hproduct]
  show (Binary64.ofRat _).floor? = _
  rw [Binary64.ofRat_of_nonneg (by linarith) hroom]
  rfl

theorem frequency_eq_error (pitch : Pitch) {tuning : ℕ} (hpos : 0 < tuning)
    (h : pitch.Overflows tuning) : pitch.frequency (.whole tuning) = .error .tooLarge := by
  by_cases htuning : rangeLimit ≤ tuning
  · rw [frequency, Binary64.toReal_whole_eq_error (by simpa using htuning)]
    rfl
  · have hproduct := h.resolve_left htuning
    have htoReal := Binary64.toReal_whole (n := tuning) (by simpa using htuning)
    rw [Int.cast_natCast] at htoReal
    rw [frequency, htoReal]
    show ((Binary64.mul _ _).add _).floor? = _
    rw [mul_ratio pitch hpos, Binary64.ofRat_of_le hproduct]
    rfl

theorem frequency_eq_ok_iff {pitch : Pitch} {tuning : ℕ} {frequency : ℤ} (hpos : 0 < tuning) :
    pitch.frequency (.whole tuning) = .ok frequency ↔
      ¬ pitch.Overflows tuning ∧ pitch.hertz tuning = frequency := by
  by_cases hover : pitch.Overflows tuning
  · rw [frequency_eq_error pitch hpos hover]
    simp [hover]
  · rw [frequency_eq_ok pitch hpos hover]
    simp [hover]

theorem nearest_add_half_nonneg (pitch : Pitch) (tuning : ℕ) :
    0 ≤ nearest (nearest tuning * pitch.ratioValue) + 1 / 2 := by
  have hproduct : 0 ≤ nearest tuning * pitch.ratioValue :=
    mul_nonneg (nearest_nonneg tuning.cast_nonneg) pitch.ratioValue_pos.le
  linarith [nearest_nonneg hproduct]

theorem frequency_nonneg {pitch : Pitch} {tuning : ℕ} {frequency : ℤ} (hpos : 0 < tuning)
    (h : pitch.frequency (.whole tuning) = .ok frequency) : 0 ≤ frequency := by
  obtain ⟨_, rfl⟩ := (frequency_eq_ok_iff hpos).mp h
  exact Int.floor_nonneg.mpr (nearest_nonneg (pitch.nearest_add_half_nonneg tuning))

theorem natAbs_frequency_lt {pitch : Pitch} {tuning : ℕ} {frequency : ℤ} (hpos : 0 < tuning)
    (h : pitch.frequency (.whole tuning) = .ok frequency) : frequency.natAbs < rangeLimit := by
  obtain ⟨hwithin, rfl⟩ := (frequency_eq_ok_iff hpos).mp h
  exact natAbs_floor_nearest_lt (pitch.nearest_add_half_nonneg tuning)
    (nearest_add_half_lt (not_le.mp (not_or.mp hwithin).2))

/-- The tuning where none is given is far below the limit. -/
theorem concertTuning_le : 440 ≤ 2 ^ 1000 :=
  le_trans (by norm_num : 440 ≤ 2 ^ 9) (pow_le_pow_right₀ (by norm_num) (by norm_num))

/-- Tunings up to `2 ^ 1000` keep every pitch within the range. -/
theorem not_overflows (pitch : Pitch) {tuning : ℕ} (h : tuning ≤ 2 ^ 1000) :
    ¬ pitch.Overflows tuning := by
  have htuning : (tuning : ℚ) ≤ pow2 (1000 : ℕ) := by rw [pow2_natCast]; exact_mod_cast h
  rintro (hlarge | hlarge)
  · exact absurd (lt_rangeLimit (by norm_num) h) (not_lt.mpr hlarge)
  · have hround := nearest_le (onGrid_pow2 (by decide)) htuning
    have hproduct : nearest tuning * pitch.ratioValue ≤ pow2 (1000 : ℕ) * pow2 6 :=
      mul_le_mul hround pitch.ratio_bounds.2.2 pitch.ratioValue_pos.le (pow2_pos _).le
    rw [← pow2_add] at hproduct
    exact absurd (hlarge.trans hproduct) (not_le.mpr (pow2_lt_rangeLimit (by norm_num)))

end Pitch

end Ringtone
