import Ringtone.Proofs.FullScale
import Ringtone.Proofs.MachineFloats
import Ringtone.Proofs.Quantisation

/-!
# The fade of a sine wave

A sine wave is faded in and out by a ramp at either end, a hundredth of a second long but never more
than half the tone. The length comes from a product that is rounded twice and cut off, and is exact
all the same. The two ramps are then written over stretches of their own length that do not overlap,
so that the factor of a sample depends on its distance from the nearer end alone; from this the fade
is the same from both ends, goes up to the middle and is zero at the ends.
-/

namespace Ringtone.Sound

open Number

/-! ## The length of a ramp -/

/-- A hundredth, as a binary64 number, is a little more than a hundredth. -/
theorem nearest_hundredth_eq : nearest (1 / 100) = 5764607523034235 / 2 ^ 59 := by
  decide +kernel

/-- Rounding leaves the hundredth of a rate on its side of the next whole number. -/
theorem floor_nearest_hundredth {rate : ℕ} (h : rate < 2 ^ 31) :
    ⌊nearest (rate * nearest (1 / 100))⌋ = (rate / 100 : ℕ) := by
  have hsize : (rate : ℚ) < 2 ^ 31 := by exact_mod_cast h
  have hnonneg : (0 : ℚ) ≤ rate := rate.cast_nonneg
  have hbelow : ((rate / 100 : ℕ) : ℚ) * 100 ≤ rate := by
    exact_mod_cast Nat.div_mul_le_self rate 100
  have habove : (rate : ℚ) + 1 ≤ ((rate / 100 : ℕ) + 1) * 100 := by
    exact_mod_cast Nat.lt_mul_of_div_lt (Nat.lt_succ_self (rate / 100)) (by norm_num)
  rw [nearest_hundredth_eq]
  generalize hx : (rate : ℚ) * (5764607523034235 / 2 ^ 59) = x
  have hhundredth : (rate : ℚ) / 100 ≤ x ∧ x ≤ rate / 100 + 1 / 2 ^ 20 := by
    rw [← hx]
    constructor <;> linarith
  rw [Int.floor_eq_iff]
  constructor
  · have hgrid : OnGrid ((rate / 100 : ℕ) : ℚ) := onGrid_natCast (by omega)
    have hle := le_nearest hgrid (show ((rate / 100 : ℕ) : ℚ) ≤ x by linarith)
    exact_mod_cast hle
  · have hplace : |x| < pow2 (-20 + 53) := by
      rw [abs_of_nonneg (by linarith), show (-20 + 53 : ℤ) = (33 : ℕ) from rfl, pow2_natCast]
      linarith
    have herror := (abs_le.mp ((abs_sub_nearest_le x).trans
      (div_le_div_of_nonneg_right (spacing_le (by decide) hplace) two_pos.le))).1
    have hspacing : pow2 (-20) = 1 / 2 ^ 20 := by norm_num [pow2]
    rw [hspacing] at herror
    rw [Int.cast_natCast]
    linarith

/-- The product of the rate and a hundredth, cut off. -/
theorem truncate_mul_hundredth {rate : ℕ} (h : rate < 2 ^ 31) :
    ((Binary64.finite rate).mul (.ofRat (1 / 100))).truncate? = .ok ((rate / 100 : ℕ) : ℤ) := by
  obtain ⟨hhundredth, hpos, hle⟩ := nearest_hundredth
  rw [hhundredth]
  rcases Nat.eq_zero_or_pos rate with rfl | hrate
  · rw [Binary64.mul]
    decide +kernel
  · have hratepos : (0 : ℚ) < rate := by exact_mod_cast hrate
    have hnonneg : 0 ≤ (rate : ℚ) * nearest (1 / 100) := (mul_pos hratepos hpos).le
    have hrange : (rate : ℚ) * nearest (1 / 100) < rangeLimit := by
      refine (mul_le_of_le_one_right hratepos.le hle).trans_lt ?_
      exact_mod_cast lt_rangeLimit (k := 31) (by norm_num) h.le
    rw [Binary64.mul_of_pos hratepos hpos, Binary64.ofRat_of_nonneg hnonneg hrange,
      Binary64.truncate?, truncate_of_nonneg (nearest_nonneg hnonneg), floor_nearest_hundredth h]

theorem fadeLength_eq {rate : ℕ} (h : rate < 2 ^ 31) (count : ℕ) :
    fadeLength count (.whole rate) = .ok (min (rate / 100) (count / 2) : ℕ) := by
  have htoReal : (Quantity.whole rate).toReal = .ok (.finite rate) := by
    have hrange : rate < rangeLimit := lt_rangeLimit (k := 31) (by norm_num) h.le
    rw [Binary64.toReal_whole (by simpa using hrange), Int.cast_natCast,
      nearest_natCast (h.le.trans (by norm_num))]
  rw [fadeLength, htoReal]
  show Except.bind (Binary64.truncate? (Binary64.mul _ _)) _ = _
  rw [truncate_mul_hundredth h, Nat.cast_min]
  rfl

/-- The ramp is as long as a hundredth of the rate and half the tone allow. -/
theorem fadeRamp_eq {rate : ℕ} (h : rate < 2 ^ 31) (count : ℕ) :
    fadeRamp count (.whole rate) = .ok (min (rate / 100) (count / 2)) := by
  rw [fadeRamp, fadeLength_eq h]
  show stepsOf count (min (rate / 100) (count / 2) : ℕ) = _
  rw [stepsOf, if_pos (Int.natCast_nonneg _), Int.toNat_natCast]

/-! ## Steps and distances -/

variable {count ramp distance i : ℕ}

/-- The distance of a sample from the nearer end. -/
def fromEnd (count i : ℕ) : ℕ := min i (count - 1 - i)

theorem fromEnd_of_lt (h : 2 * i < count) : fromEnd count i = i :=
  min_eq_left (by omega)

/-- Seen from the other end, the nearer end is as near. -/
theorem fromEnd_mirror (h : i < count) : fromEnd count (count - 1 - i) = fromEnd count i := by
  rw [fromEnd, fromEnd]
  omega

theorem fromEnd_zero (count : ℕ) : fromEnd count 0 = 0 := Nat.zero_min _

theorem fromEnd_last (count : ℕ) : fromEnd count (count - 1) = 0 := by
  rw [fromEnd, Nat.sub_self, Nat.min_zero]

section

variable {α : Type} [SampleNumber α]

/-- A step of a ramp, or the full height behind it. -/
def step (ramp distance : ℕ) : α :=
  if distance < ramp then SampleNumber.ofNat distance / SampleNumber.ofNat ramp
  else SampleNumber.decimal 1 0

theorem step_of_lt (h : distance < ramp) :
    (step ramp distance : α) = SampleNumber.ofNat distance / SampleNumber.ofNat ramp :=
  if_pos h

/-- When the ramps do not overlap, the factor goes by the distance from the nearer end. -/
theorem factor_eq_step (hapart : 2 * ramp ≤ count) (hi : i < count) :
    (factor count ramp i : α) = step ramp (fromEnd count i) := by
  rw [factor, step, fromEnd]
  by_cases hrise : i < ramp
  · rw [if_pos hrise, if_pos (by omega), min_eq_left (by omega)]
  · by_cases hfall : count - ramp ≤ i
    · rw [if_neg hrise, if_pos hfall, if_pos (by omega), min_eq_right (by omega)]
    · rw [if_neg hrise, if_neg hfall, if_neg (by omega)]

/-- A sine wave without its fade. -/
def sines (frequency rate : α) (count : ℕ) : List α :=
  (List.range count).map (sineSample frequency rate)

theorem getElem?_envelope_eq_step (hapart : 2 * ramp ≤ count) (hi : i < count) :
    (envelope count ramp : List α)[i]? = some (step ramp (fromEnd count i)) := by
  rw [getElem?_envelope ramp hi, factor_eq_step hapart hi]

theorem getElem?_wave_sine (hapart : 2 * ramp ≤ count) (hi : i < count) (frequency rate : α) :
    (wave .sine frequency rate count (envelope count ramp))[i]? =
      some (step ramp (fromEnd count i) * sineSample frequency rate i) := by
  rw [wave_sine_eq_map, List.getElem?_map, List.getElem?_range hi, Option.map_some,
    factor_eq_step hapart hi]

end

/-! ## The shape of the fade -/

/-- Factors that go up by equal steps at the beginning and down at the end, and are one between. -/
structure IsFade (count ramp : ℕ) (factors : List Float) : Prop where
  /-- The ramps do not overlap. -/
  apart : 2 * ramp ≤ count
  length_eq : factors.length = count
  rises : ∀ i < ramp, factors[i]? = some (Float.ofNat i / Float.ofNat ramp)
  falls : ∀ i < ramp, factors[count - 1 - i]? = some (Float.ofNat i / Float.ofNat ramp)
  full : ∀ i, ramp ≤ i → i < count - ramp → factors[i]? = some 1.0
  palindrome : factors.reverse = factors

theorem step_of_le (h : ramp ≤ distance) : step ramp distance = (1.0 : Float) := by
  rw [step, if_neg (not_lt.mpr h)]
  decide +kernel

theorem isFade_envelope (hapart : 2 * ramp ≤ count) : IsFade count ramp (envelope count ramp) where
  apart := hapart
  length_eq := length_envelope count ramp
  rises i hi := by
    rw [getElem?_envelope_eq_step hapart (by omega), fromEnd_of_lt (by omega), step_of_lt hi]
    rfl
  falls i hi := by
    rw [getElem?_envelope_eq_step hapart (by omega), fromEnd_mirror (by omega),
      fromEnd_of_lt (by omega), step_of_lt hi]
    rfl
  full i hlow hhigh := by
    rw [getElem?_envelope_eq_step hapart (by omega), step_of_le (by rw [fromEnd]; omega)]
  palindrome := by
    refine List.ext_getElem? fun i => ?_
    by_cases hi : i < count
    · rw [List.getElem?_reverse (by rwa [length_envelope]), length_envelope,
        getElem?_envelope_eq_step hapart (by omega), getElem?_envelope_eq_step hapart hi,
        fromEnd_mirror hi]
    · rw [List.getElem?_eq_none (by rw [List.length_reverse, length_envelope]; omega),
        List.getElem?_eq_none (by rw [length_envelope]; omega)]

/-! ## The values of the fade -/

theorem nearest_one : nearest 1 = 1 := by
  exact_mod_cast nearest_natCast (n := 1) (by norm_num)

/-- The value that a step stands for. -/
def stepValue (ramp distance : ℕ) : ℚ := if distance < ramp then distance / ramp else 1

theorem stepValue_mem_unit (ramp distance : ℕ) :
    0 ≤ stepValue ramp distance ∧ stepValue ramp distance ≤ 1 := by
  rw [stepValue]
  split_ifs with h
  · exact ⟨by positivity, div_le_one_of_le₀ (by exact_mod_cast h.le) (Nat.cast_nonneg _)⟩
  · exact ⟨zero_le_one, le_rfl⟩

theorem stepValue_mono (ramp : ℕ) : Monotone (stepValue ramp) := by
  intro near far h
  by_cases hfar : far < ramp
  · rw [stepValue, if_pos (by omega), stepValue, if_pos hfar]
    exact div_le_div_of_nonneg_right (by exact_mod_cast h) (Nat.cast_nonneg _)
  · exact (stepValue_mem_unit ramp near).2.trans_eq (by rw [stepValue, if_neg hfar])

/-- The float of a step is the binary64 number next to its value. -/
theorem toRat?_step (hramp : ramp < 2 ^ 53) (distance : ℕ) :
    (Binary64.ofFloat (step ramp distance)).toRat? = some (nearest (stepValue ramp distance)) := by
  rw [stepValue]
  split_ifs with h
  · have hpos : (0 : ℚ) < ramp := by exact_mod_cast Nat.zero_lt_of_lt h
    have hrange : (distance : ℚ) / ramp < rangeLimit := by
      have hone : (distance : ℚ) / ramp ≤ 1 := div_le_one_of_le₀ (by exact_mod_cast h.le) hpos.le
      exact hone.trans_lt (by exact_mod_cast lt_rangeLimit (k := 0) (by norm_num) le_rfl)
    have hquotient := ofFloat_div (ofFloat_ofNat (h.trans hramp)) (ofFloat_ofNat hramp)
      distance.cast_nonneg hpos hrange
    rw [step_of_lt h]
    exact congrArg Binary64.toRat? hquotient
  · rw [step_of_le (not_lt.mp h)]
    decide +kernel

/-- The values of a fade's factors. -/
def fadeValues (count ramp : ℕ) : List ℚ :=
  (List.range count).map fun i => nearest (stepValue ramp (fromEnd count i))

theorem haveValues_envelope (hapart : 2 * ramp ≤ count) (hramp : ramp < 2 ^ 53) :
    HaveValues (envelope count ramp) (fadeValues count ramp) := by
  refine List.forall₂_map_left_iff.mpr (List.forall₂_map_right_iff.mpr (List.forall₂_same.mpr ?_))
  intro i hi
  rw [factor_eq_step hapart (List.mem_range.mp hi), toRat?_step hramp]

/-- Values between zero and one that go up to the middle from zero at the ends. -/
structure IsFadeCurve (count ramp : ℕ) (values : List ℚ) : Prop where
  rises : ∀ i < ramp, values[i]? = some (nearest (i / ramp))
  mem_unit : ∀ value ∈ values, 0 ≤ value ∧ value ≤ 1
  mono : ∀ i j value later, i ≤ j → 2 * j < count → values[i]? = some value →
    values[j]? = some later → value ≤ later
  ends : 0 < ramp → values.head? = some 0 ∧ values.getLast? = some 0

@[simp]
theorem length_fadeValues (count ramp : ℕ) : (fadeValues count ramp).length = count := by
  rw [fadeValues, List.length_map, List.length_range]

theorem getElem?_fadeValues (ramp : ℕ) (hi : i < count) :
    (fadeValues count ramp)[i]? = some (nearest (stepValue ramp (fromEnd count i))) := by
  rw [fadeValues, List.getElem?_map, List.getElem?_range hi, Option.map_some]

theorem isFadeCurve_fadeValues (hapart : 2 * ramp ≤ count) :
    IsFadeCurve count ramp (fadeValues count ramp) where
  rises i hi := by
    rw [getElem?_fadeValues ramp (by omega), fromEnd_of_lt (by omega), stepValue, if_pos hi]
  mem_unit value hvalue := by
    obtain ⟨i, -, rfl⟩ := List.mem_map.mp hvalue
    obtain ⟨hlow, hhigh⟩ := stepValue_mem_unit ramp (fromEnd count i)
    exact ⟨nearest_nonneg hlow, (nearest_mono hhigh).trans_eq nearest_one⟩
  mono i j value later hij hj hvalue hlater := by
    rw [getElem?_fadeValues ramp (by omega), fromEnd_of_lt (by omega)] at hvalue hlater
    cases hvalue
    cases hlater
    exact nearest_mono (stepValue_mono ramp hij)
  ends hramp := by
    have hzero : nearest (stepValue ramp 0) = 0 := by
      rw [stepValue, if_pos hramp, Nat.cast_zero, zero_div, nearest_zero]
    constructor
    · rw [List.head?_eq_getElem?, getElem?_fadeValues ramp (by omega), fromEnd_zero, hzero]
    · rw [List.getLast?_eq_getElem?, length_fadeValues, getElem?_fadeValues ramp (by omega),
        fromEnd_last, hzero]

/-! ## Silence at both ends -/

/-- A sample that sounds as nothing: it is zero, unless its sine is no number, and comes to zero
among whole numbers in any case. -/
structure IsSilent (sine sample : Float) : Prop where
  value_eq : (Binary64.ofFloat sine).toRat? ≠ none → (Binary64.ofFloat sample).toRat? = some 0
  quantise_eq : quantise (.ofFloat sample) = 0

theorem isSilent_mul {factor : Float} (h : (Binary64.ofFloat factor).toRat? = some 0)
    (sine : Float) : IsSilent sine (factor * sine) := by
  rcases ofFloat_zero_mul h sine with hzero | ⟨hnone, hnan⟩
  · refine ⟨fun _ => hzero, ?_⟩
    rw [quantise_eq_level hzero]
    decide +kernel
  · refine ⟨fun hnumber => absurd hnone hnumber, ?_⟩
    rw [hnan]
    rfl

/-- Samples of which the first and the last are silent. -/
structure SilentEnds (sines samples : List Float) : Prop where
  first : ∃ sine sample, sines.head? = some sine ∧ samples.head? = some sample ∧
    IsSilent sine sample
  last : ∃ sine sample, sines.getLast? = some sine ∧ samples.getLast? = some sample ∧
    IsSilent sine sample

theorem silentEnds_wave (hapart : 2 * ramp ≤ count) (hpos : 0 < ramp) (hramp : ramp < 2 ^ 53)
    (frequency rate : Float) :
    SilentEnds (sines frequency rate count)
      (wave .sine frequency rate count (envelope count ramp)) := by
  have hzero : (Binary64.ofFloat (step ramp 0)).toRat? = some 0 := by
    rw [toRat?_step hramp, stepValue, if_pos hpos, Nat.cast_zero, zero_div, nearest_zero]
  have hsilent : ∀ i < count, fromEnd count i = 0 → ∃ sine sample,
      (sines frequency rate count)[i]? = some sine ∧
      (wave .sine frequency rate count (envelope count ramp))[i]? = some sample ∧
      IsSilent sine sample := by
    intro i hi hend
    have hsample := getElem?_wave_sine hapart hi frequency rate
    rw [hend] at hsample
    refine ⟨_, _, ?_, hsample, isSilent_mul hzero _⟩
    rw [sines, List.getElem?_map, List.getElem?_range hi, Option.map_some]
  have hlength : (sines frequency rate count).length = count := by
    rw [sines, List.length_map, List.length_range]
  constructor
  · simp only [List.head?_eq_getElem?]
    exact hsilent 0 (by omega) (fromEnd_zero count)
  · simp only [List.getLast?_eq_getElem?, hlength, length_wave]
    exact hsilent (count - 1) (by omega) (fromEnd_last count)

/-- In exact arithmetic the ends are zero, whatever the sine is. -/
theorem exactWave_ends (hapart : 2 * ramp ≤ count) (hpos : 0 < ramp) (f : Functions)
    (frequency rate : ℝ) :
    (f.wave .sine frequency rate count ramp).head? = some 0 ∧
      (f.wave .sine frequency rate count ramp).getLast? = some 0 := by
  have hstep : @step ℝ f.numbers ramp 0 = 0 := by
    refine (@step_of_lt ramp 0 ℝ f.numbers hpos).trans ?_
    exact div_eq_zero_iff.mpr (Or.inl Nat.cast_zero)
  have hzero : ∀ i < count, fromEnd count i = 0 →
      (f.wave .sine frequency rate count ramp)[i]? = some 0 := by
    intro i hi hend
    have hsample := @getElem?_wave_sine count ramp i ℝ f.numbers hapart hi frequency rate
    rw [hend, hstep] at hsample
    exact hsample.trans (congrArg some (zero_mul _))
  rw [List.head?_eq_getElem?, List.getLast?_eq_getElem?, length_exactWave]
  exact ⟨hzero 0 (by omega) (fromEnd_zero count), hzero _ (by omega) (fromEnd_last count)⟩

/-! ## Sine tones -/

/-- The sine wave of a shape, without its fade. -/
def Shape.sines (shape : Shape) : List Float :=
  Sound.sines shape.frequency.toFloat shape.rate.toFloat shape.count

/-- A tone of some shape that is faded by these factors, from silence and into silence. -/
structure IsFaded (factors : List Float) (shape : Shape) (samples : List Float) : Prop where
  samples_eq : samples = List.zipWith (· * ·) factors shape.sines
  silent : 0 < shape.ramp → SilentEnds shape.sines samples
  /-- In exact arithmetic, the ends are zero whatever the sine is. -/
  zero : 0 < shape.ramp → ∀ f : Functions,
    (shape.exactSamples f).head? = some 0 ∧ (shape.exactSamples f).getLast? = some 0

theorem isFaded_samples {shape : Shape} (hstyle : shape.style = .sine)
    (hapart : 2 * shape.ramp ≤ shape.count) (hramp : shape.ramp < 2 ^ 53) :
    IsFaded (envelope shape.count shape.ramp) shape (shape.samples Binary64.toFloat) := by
  obtain ⟨style, frequency, rate, count, ramp⟩ := shape
  dsimp only at hstyle hapart hramp ⊢
  subst hstyle
  exact ⟨rfl, fun hpos => silentEnds_wave hapart hpos hramp _ _,
    fun hpos f => exactWave_ends hapart hpos f _ _⟩

/-- The shape of a sine tone has the ramp of its rate and number of samples. -/
theorem ramp_of_shapeOf {rate : ℕ} {frequency duration style : Value} {shape : Shape}
    (hrate : rate < 2 ^ 31) (hstyle : Style.ofValue style = .ok .sine)
    (h : shapeOf frequency duration (.int rate) style = .ok shape) :
    shape.style = .sine ∧ shape.ramp = min (rate / 100) (shape.count / 2) := by
  obtain ⟨hnamed, quantity, hquantity, hramp⟩ := style_and_ramp_of_shapeOf h
  have hsine : shape.style = .sine := Except.ok.inj (hnamed.symm.trans hstyle)
  cases hquantity
  rw [hsine, rampFor, fadeRamp_eq hrate] at hramp
  exact ⟨hsine, (Except.ok.inj hramp).symm⟩

/-- The fade of any number of samples, at a rate below `2 ^ 31`, exists and is well formed: its two
ramps have as many steps as a hundredth of the rate and half the samples allow, do not overlap, and
are the same from either end. Its factors are the binary64 numbers next to the exact parts, go up to
the middle and are zero at the ends. It is what a sine tone of so many samples is multiplied by, so
that the tone begins and ends in silence, with zeros wherever the sine there is a number. -/
theorem fadeEnvelope_well_formed {rate : ℕ} (hrate : rate < 2 ^ 31) (count : ℕ) :
    ∃ factors values, fadeEnvelope count (.whole rate) = .ok factors ∧
      IsFade count (min (rate / 100) (count / 2)) factors ∧ HaveValues factors values ∧
      IsFadeCurve count (min (rate / 100) (count / 2)) values ∧
      ∀ (frequency duration style : Value) (samples : List Float),
        Style.ofValue style = .ok .sine →
        tone frequency duration (.int rate) style = .ok samples → samples.length = count →
        ∃ shape, shapeOf frequency duration (.int rate) style = .ok shape ∧
          shape.ramp = min (rate / 100) (count / 2) ∧ IsFaded factors shape samples := by
  have hapart : 2 * min (rate / 100) (count / 2) ≤ count := by omega
  have hramp : min (rate / 100) (count / 2) < 2 ^ 53 := by omega
  refine ⟨envelope count _, fadeValues count _, ?_, isFade_envelope hapart,
    haveValues_envelope hapart hramp, isFadeCurve_fadeValues hapart, ?_⟩
  · rw [fadeEnvelope_eq, fadeRamp_eq hrate]
    rfl
  · intro frequency duration style samples hstyle htone hcount
    rw [tone_eq_shapeOf] at htone
    obtain ⟨shape, hshape, rfl⟩ := map_eq_ok_iff.mp htone
    obtain ⟨hsine, hlength⟩ := ramp_of_shapeOf hrate hstyle hshape
    rw [Shape.length_samples] at hcount
    subst hcount
    rw [← hlength] at hapart hramp ⊢
    exact ⟨shape, hshape, rfl, isFaded_samples hsine hapart hramp⟩

/-- Five samples leave one between two ramps of two steps. -/
theorem fadeEnvelope_of_five_samples :
    8000 < 2 ^ 31 ∧ fadeEnvelope 5 (.whole 8000) = .ok [0.0, 0.5, 1.0, 0.5, 0.0] ∧
      IsFade 5 2 [0.0, 0.5, 1.0, 0.5, 0.0] := by
  have hfactors : fadeEnvelope 5 (.whole 8000) = .ok [0.0, 0.5, 1.0, 0.5, 0.0] :=
    eq_ok_of_toOption (by decide +kernel)
  obtain ⟨factors, _, hfade, hshape, _⟩ :=
    fadeEnvelope_well_formed (show 8000 < 2 ^ 31 by norm_num) 5
  obtain rfl : factors = [0.0, 0.5, 1.0, 0.5, 0.0] :=
    Except.ok.inj (hfade.symm.trans hfactors)
  exact ⟨by norm_num, hfactors, hshape⟩

end Ringtone.Sound
