import Ringtone.Sound.Rendering
import Ringtone.Proofs.Ramps
import Ringtone.Proofs.Range
import Ringtone.Proofs.Traversal

/-!
# Rendering on time

A tone and the silence behind it fill exactly the samples of the tone's length, so that gaps move no
tone. The number of samples is taken from a quotient that was rounded, and stays exact as long as
rate and length multiply to less than `2 ^ 53`. Rendering then fails only where a frequency or the
rate is beyond the range of binary64 numbers.
-/

namespace Ringtone.Sound

open Number

/-- The number of samples of a length in milliseconds. -/
def samplesIn (rate duration : ℕ) : ℕ := rate * duration / 1000

variable {rate duration : ℕ}

theorem samplesIn_mono {shorter : ℕ} (h : shorter ≤ duration) :
    samplesIn rate shorter ≤ samplesIn rate duration :=
  Nat.div_le_div_right (Nat.mul_le_mul_left rate h)

/-- The quotient may be rounded, but not up to the next whole number. -/
theorem truncate_nearest_thousandths {m : ℕ} (h : m < 2 ^ 53) :
    truncate (nearest ((m : ℚ) / 1000)) = (m / 1000 : ℕ) := by
  rw [truncate_of_nonneg (nearest_nonneg (by positivity)), floor_nearest_div_thousand h]

theorem divNat_thousand {m : ℕ} (h : m < 2 ^ 53) :
    (Quantity.whole m).divNat 1000 = .ok (.finite (nearest ((m : ℚ) / 1000))) := by
  have hnonneg : 0 ≤ (m : ℚ) / 1000 := by positivity
  have hlimit : (m : ℚ) < rangeLimit := by
    exact_mod_cast lt_rangeLimit (k := 53) (by norm_num) h.le
  have hquotient : (m : ℚ) / 1000 < rangeLimit :=
    (div_le_self m.cast_nonneg (by norm_num)).trans_lt hlimit
  have hround := Binary64.ofRat_of_nonneg hnonneg hquotient
  rw [Quantity.divNat, Int.cast_natCast, Nat.cast_ofNat, hround]

theorem sampleCount_eq (h : rate * duration < 2 ^ 53) :
    sampleCount (.whole duration) (.whole rate) = .ok (samplesIn rate duration) := by
  have hmul : (Quantity.whole rate).mul (.whole duration) = .ok (.whole (rate * duration : ℕ)) := by
    rw [Quantity.mul, Nat.cast_mul]
  rw [sampleCount, hmul]
  show Except.bind (Quantity.divNat _ _) _ = _
  rw [divNat_thousand h]
  show Except.ok (truncate _) = _
  rw [truncate_nearest_thousandths h, samplesIn]

/-- The room for samples, in the numbers of the platform. -/
theorem addressable_eq (fault : Fault) (count : ℤ) : addressable fault count =
    if count < -2 ^ 63 ∨ 2 ^ 63 ≤ count then .error fault
    else if 2 ^ 63 ≤ count * 8 then .error .samplesTooLarge
    else if 2 ^ 47 ≤ count * 8 then .error .outOfMemory
    else .ok count :=
  rfl

/-- So many samples have an address each, and memory for all of them. -/
theorem addressable_of_le {fault : Fault} {count : ℕ} (h : count ≤ 2 ^ 53 / 1000) :
    addressable fault count = .ok count := by
  rw [addressable_eq, if_neg (by omega), if_neg (by omega), if_neg (by omega)]

/-! ## One tone -/

theorem nearest_hundredth : Binary64.ofRat (1 / 100) = .finite (nearest (1 / 100)) ∧
    0 < nearest (1 / 100) ∧ nearest (1 / 100) ≤ 1 := by
  have hpos : 0 < nearest (1 / 100) :=
    (pow2_pos (-7)).trans_le (le_nearest (onGrid_pow2 (by decide)) (by norm_num [pow2]))
  have hone : nearest (1 / 100) ≤ pow2 0 :=
    nearest_le (onGrid_pow2 (by decide)) (by norm_num [pow2])
  have hlimit : (1 / 100 : ℚ) < rangeLimit :=
    (by norm_num [pow2] : (1 / 100 : ℚ) ≤ pow2 0).trans_lt (pow2_lt_rangeLimit (by norm_num))
  exact ⟨Binary64.ofRat_of_lt hpos hlimit, hpos, hone.trans_eq (zpow_zero 2)⟩

/-- The fade of a sine wave has a length for every rate in the range of binary64 numbers. -/
theorem exists_fadeLength (count : ℕ) (hrate : 1 ≤ rate) (hlimit : rate < rangeLimit) :
    ∃ length : ℕ, fadeLength count (.whole rate) = .ok length := by
  obtain ⟨hhundredth, hpos, hle⟩ := nearest_hundredth
  have hone : 1 ≤ nearest rate := one_le_nearest hrate
  have hbelow : nearest rate < rangeLimit := nearest_lt_rangeLimit (by exact_mod_cast hlimit)
  have hnonneg : 0 ≤ nearest rate * nearest (1 / 100) := mul_nonneg (by linarith) hpos.le
  have hproduct : nearest rate * nearest (1 / 100) < rangeLimit :=
    (mul_le_of_le_one_right (by linarith) hle).trans_lt hbelow
  have hmul : (Binary64.finite (nearest rate)).mul (.ofRat (1 / 100)) =
      .finite (nearest (nearest rate * nearest (1 / 100))) := by
    rw [hhundredth, Binary64.mul_of_pos (by linarith) hpos,
      Binary64.ofRat_of_nonneg hnonneg hproduct]
  have htoReal := Binary64.toReal_whole (n := rate) (by simpa using hlimit)
  rw [Int.cast_natCast] at htoReal
  have hfloor : 0 ≤ ⌊nearest (nearest rate * nearest (1 / 100))⌋ :=
    Int.floor_nonneg.mpr (nearest_nonneg hnonneg)
  refine ⟨(min ⌊nearest (nearest rate * nearest (1 / 100))⌋ (count / 2 : ℕ)).toNat, ?_⟩
  rw [fadeLength, htoReal]
  show Except.bind (Binary64.truncate? (Binary64.mul _ _)) _ = _
  rw [hmul, Binary64.truncate?, truncate_of_nonneg (nearest_nonneg hnonneg),
    Int.toNat_of_nonneg (le_min hfloor (Int.natCast_nonneg _))]
  rfl

/-- The ramps of a fade have room beside each other. -/
theorem fadeLength_le {count : ℕ} {rate : Quantity} {length : ℤ}
    (h : fadeLength count rate = .ok length) : length ≤ (count / 2 : ℕ) := by
  obtain ⟨realRate, -, h⟩ := bind_eq_ok_iff.mp h
  obtain ⟨tenMilliseconds, -, h⟩ := bind_eq_ok_iff.mp h
  cases h
  exact min_le_right _ _

theorem fadeEnvelope_of_fadeLength {count length : ℕ} {rate : Quantity}
    (h : fadeLength count rate = .ok length) :
    fadeEnvelope count rate = .ok (envelope count length) := by
  have hhalf : length ≤ count / 2 := by exact_mod_cast fadeLength_le h
  rw [fadeEnvelope, h]
  exact fade_natCast (by omega)

@[simp]
theorem style_ofValue_name (style : Style) : Style.ofValue (.ofString style.name) = .ok style := by
  cases style <;> rfl

/-- Within the limits, a tone has the samples of its wave, once its frequency is a binary64 number.
A bell of no samples does not look at the frequency. -/
theorem tone_eq (style : Style) (hrate : 1 ≤ rate) (hlimit : rate < rangeLimit)
    (h : rate * duration < 2 ^ 53) :
    ∃ (realRate : Float) (length : ℕ), ∀ frequency : ℤ,
      tone (.int frequency) (.int duration) (.int rate) (.ofString style.name) =
        if style = .bell ∧ samplesIn rate duration = 0 then .ok []
        else (ofNumber (Quantity.whole frequency).toReal).map fun x =>
          wave style x.toFloat realRate (samplesIn rate duration)
            (envelope (samplesIn rate duration) length) := by
  obtain ⟨length, hlength⟩ := exists_fadeLength (samplesIn rate duration) hrate hlimit
  have htoReal := Binary64.toReal_whole (n := rate) (by simpa using hlimit)
  refine ⟨(Binary64.finite (nearest rate)).toFloat, length, ?_⟩
  intro frequency
  have hroom : samplesIn rate duration ≤ 2 ^ 53 / 1000 := Nat.div_le_div_right h.le
  have hfactors := fadeEnvelope_of_fadeLength hlength
  simp only [tone, style_ofValue_name, Value.quantity, bind, Except.bind, sampleCount_eq h,
    ofNumber, Except.mapError, addressable_of_le hroom, htoReal, Int.toNat_natCast]
  by_cases hempty : style = .bell ∧ samplesIn rate duration = 0
  · rw [if_pos hempty, if_pos hempty]
    rfl
  · rw [if_neg hempty, if_neg hempty]
    -- the factors are read by sine waves alone
    cases (Quantity.whole frequency).toReal <;> cases style <;>
      simp [hfactors, wave, Except.map, pure, Except.pure]

theorem tone_of_large_rate (frequency : ℤ) (style : Style) (hrate : rangeLimit ≤ rate)
    (h : rate * duration < 2 ^ 53) :
    tone (.int frequency) (.int duration) (.int rate) (.ofString style.name) =
      .error (.number .tooLarge) := by
  have htoReal := Binary64.toReal_whole_eq_error (n := rate) (by simpa using hrate)
  have hroom : samplesIn rate duration ≤ 2 ^ 53 / 1000 := Nat.div_le_div_right h.le
  simp only [tone, style_ofValue_name, Value.quantity, bind, Except.bind, sampleCount_eq h,
    ofNumber, Except.mapError, addressable_of_le hroom, htoReal]

/-- A tone that cannot be rendered: the rate is beyond the range of binary64 numbers, or the
frequency is and there are samples that need it. -/
def Overloaded (rate gap : ℕ) (style : Style) (t : Tone) : Prop :=
  rangeLimit ≤ rate ∨
    rangeLimit ≤ t.frequency.natAbs ∧ ¬ (style = .bell ∧ samplesIn rate (t.duration - gap) = 0)

variable {gap : ℕ} {style : Style} {t : Tone}

theorem sounding_lt (h : rate * t.duration < 2 ^ 53) : rate * (t.duration - gap) < 2 ^ 53 :=
  (Nat.mul_le_mul_left rate (Nat.sub_le _ _)).trans_lt h

theorem tone_of_overloaded (hrate : 1 ≤ rate) (h : rate * t.duration < 2 ^ 53)
    (hover : Overloaded rate gap style t) :
    tone (.int t.frequency) (.int ↑(t.duration - gap)) (.int rate) (.ofString style.name) =
      .error (.number .tooLarge) := by
  by_cases hlimit : rangeLimit ≤ rate
  · exact tone_of_large_rate t.frequency style hlimit (sounding_lt h)
  · obtain ⟨hfrequency, hsounds⟩ := hover.resolve_left hlimit
    obtain ⟨realRate, length, htone⟩ := tone_eq style hrate (not_le.mp hlimit) (sounding_lt h)
    rw [htone, if_neg hsounds, Binary64.toReal_whole_eq_error hfrequency]
    rfl

theorem tone_of_not_overloaded (hrate : 1 ≤ rate) (h : rate * t.duration < 2 ^ 53)
    (hover : ¬ Overloaded rate gap style t) :
    ∃ sounding,
      tone (.int t.frequency) (.int ↑(t.duration - gap)) (.int rate) (.ofString style.name) =
        .ok sounding ∧ sounding.length = samplesIn rate (t.duration - gap) := by
  obtain ⟨hlimit, hfrequency⟩ := not_or.mp hover
  obtain ⟨realRate, length, htone⟩ := tone_eq style hrate (not_le.mp hlimit) (sounding_lt h)
  rw [htone]
  by_cases hempty : style = .bell ∧ samplesIn rate (t.duration - gap) = 0
  · rw [if_pos hempty]
    exact ⟨[], rfl, hempty.2.symm⟩
  · have hsmall : t.frequency.natAbs < rangeLimit :=
      not_le.mp fun hlarge => hfrequency ⟨hlarge, hempty⟩
    rw [if_neg hempty, Binary64.toReal_whole hsmall]
    exact ⟨_, rfl, length_wave _ _ _ _ length⟩

/-! ## The silence behind a tone -/

theorem orZero_sub (duration gap : ℕ) :
    (Quantity.whole ((duration : ℤ) - gap)).orZero = .whole ↑(duration - gap) := by
  rw [Quantity.orZero, Quantity.isNegative]
  by_cases h : (duration : ℤ) - gap < 0
  · rw [if_pos (decide_eq_true h), Nat.sub_eq_zero_of_le (by omega)]
    rfl
  · rw [if_neg (by simpa using h), Nat.cast_sub (by omega)]

/-- The silence makes up for the samples that the gap takes from the tone. -/
theorem toneWithGap_eq (h : rate * t.duration < 2 ^ 53) :
    toneWithGap (.int rate) (.ofString style.name) (.whole gap) (toneValue t) =
      (tone (.int t.frequency) (.int ↑(t.duration - gap)) (.int rate) (.ofString style.name)).map
        fun sounding => sounding ++ List.replicate
          (samplesIn rate t.duration - samplesIn rate (t.duration - gap)) 0.0 := by
  have hmono : samplesIn rate (t.duration - gap) ≤ samplesIn rate t.duration :=
    samplesIn_mono (Nat.sub_le _ _)
  have hroom : samplesIn rate t.duration - samplesIn rate (t.duration - gap) ≤ 2 ^ 53 / 1000 :=
    (Nat.sub_le _ _).trans (Nat.div_le_div_right h.le)
  simp only [toneWithGap, toneValue, pairOf, partsOf, Value.quantity, Quantity.sub, bind,
    Except.bind, pure, Except.pure, ofNumber, Except.mapError, orZero_sub, quantityValue]
  cases tone (.int t.frequency) (.int ↑(t.duration - gap)) (.int rate) (.ofString style.name) with
  | error fault => rfl
  | ok sounding =>
    simp only [sampleCount_eq h, sampleCount_eq (sounding_lt h), ← Nat.cast_sub hmono,
      addressable_of_le hroom, Int.toNat_natCast, Except.map]
    rw [if_neg (not_lt.mpr (Int.natCast_nonneg _))]

/-- What is heard of a tone, brought to full scale, and the silence behind it. -/
def IsPart (rate gap : ℕ) (style : Style) (t : Tone) (part : List Float) : Prop :=
  ∃ sounding,
    tone (.int t.frequency) (.int ↑(t.duration - gap)) (.int rate) (.ofString style.name) =
      .ok sounding ∧
    sounding.length = samplesIn rate (t.duration - gap) ∧
    part = sounding.map SampleNumber.clamp ++
      List.replicate (samplesIn rate t.duration - samplesIn rate (t.duration - gap)) 0.0

theorem IsPart.length_eq {part : List Float} (h : IsPart rate gap style t part) :
    part.length = samplesIn rate t.duration := by
  obtain ⟨sounding, _, hlength, rfl⟩ := h
  rw [List.length_append, List.length_map, List.length_replicate, hlength,
    Nat.add_sub_cancel' (samplesIn_mono (Nat.sub_le _ _))]

/-- Silence is within full scale. -/
@[simp]
theorem clamp_zero : SampleNumber.clamp (0.0 : Float) = 0.0 := by decide

theorem toneWithGap_of_overloaded (hrate : 1 ≤ rate) (h : rate * t.duration < 2 ^ 53)
    (hover : Overloaded rate gap style t) :
    toneWithGap (.int rate) (.ofString style.name) (.whole gap) (toneValue t) =
      .error (.number .tooLarge) := by
  rw [toneWithGap_eq h, tone_of_overloaded hrate h hover]
  rfl

theorem toneWithGap_of_not_overloaded (hrate : 1 ≤ rate) (h : rate * t.duration < 2 ^ 53)
    (hover : ¬ Overloaded rate gap style t) :
    ∃ chunk,
      toneWithGap (.int rate) (.ofString style.name) (.whole gap) (toneValue t) = .ok chunk ∧
        IsPart rate gap style t (chunk.map SampleNumber.clamp) := by
  obtain ⟨sounding, htone, hlength⟩ := tone_of_not_overloaded hrate h hover
  rw [toneWithGap_eq h, htone]
  refine ⟨_, rfl, sounding, htone, hlength, ?_⟩
  rw [List.map_append, List.map_replicate, clamp_zero]

/-! ## All tones -/

theorem renderTones_eq (tones : List Tone) (rate style : Value) {gap : Value} {quantity : Quantity}
    (hgap : gap.quantity = .ok quantity) (hnonneg : quantity.isNegative = false) :
    renderTones tones rate style gap =
      (tones.mapM fun t => toneWithGap rate style quantity (toneValue t)).map
        fun chunks => chunks.flatten.map SampleNumber.clamp := by
  simp only [renderTones, render, partsOf, hgap, hnonneg, bind, Except.bind, List.mapM_map]
  rw [if_neg Bool.false_ne_true]
  rfl

/-- Tones after others are rendered behind them. -/
theorem renderTones_append (tones others : List Tone) (rate style gap : Value) :
    renderTones (tones ++ others) rate style gap = do
      return (← renderTones tones rate style gap) ++ (← renderTones others rate style gap) := by
  cases hgap : gap.quantity with
  | error fault => simp only [renderTones, render, hgap, bind, Except.bind]
  | ok quantity =>
    by_cases hnegative : quantity.isNegative = true
    · simp only [renderTones, render, hgap, hnegative, bind, Except.bind, if_true, throw,
        throwThe, MonadExceptOf.throw]
    · rw [Bool.not_eq_true] at hnegative
      simp only [renderTones_eq _ rate style hgap hnegative, List.mapM_append]
      cases tones.mapM fun t => toneWithGap rate style quantity (toneValue t) with
      | error fault => rfl
      | ok chunks =>
        cases others.mapM fun t => toneWithGap rate style quantity (toneValue t) with
        | error fault => rfl
        | ok rest => simp [bind, Except.bind, Except.map, pure, Except.pure]

@[simp]
theorem isNegative_natCast (n : ℕ) : (Quantity.whole n).isNegative = false := by
  rw [Quantity.isNegative, decide_eq_false (not_lt.mpr (Int.natCast_nonneg _))]

variable {tones : List Tone}

theorem renderTones_of_overloaded (hrate : 1 ≤ rate)
    (hduration : ∀ t ∈ tones, rate * t.duration < 2 ^ 53)
    (hover : ∃ t ∈ tones, Overloaded rate gap style t) :
    renderTones tones (.int rate) (.ofString style.name) (.int gap) =
      .error (.number .tooLarge) := by
  obtain ⟨t, ht, hover⟩ := hover
  rw [renderTones_eq tones _ _ rfl (isNegative_natCast gap)]
  cases hmapM : tones.mapM fun t =>
      toneWithGap (.int rate) (.ofString style.name) (.whole gap) (toneValue t) with
  | ok chunks =>
    obtain ⟨chunk, hchunk⟩ := exists_ok_of_mapM hmapM ht
    rw [toneWithGap_of_overloaded hrate (hduration t ht) hover] at hchunk
    cases hchunk
  | error fault =>
    -- whichever tone fails first, there is one fault that it can have
    obtain ⟨before, first, after, rfl, _, hfirst⟩ := mapM_eq_error_iff.mp hmapM
    have hshort := hduration first (by simp)
    by_cases hfault : Overloaded rate gap style first
    · rw [toneWithGap_of_overloaded hrate hshort hfault] at hfirst
      cases hfirst
      rfl
    · obtain ⟨chunk, hchunk, _⟩ := toneWithGap_of_not_overloaded hrate hshort hfault
      rw [hchunk] at hfirst
      cases hfirst

theorem exists_parts_of_not_overloaded (hrate : 1 ≤ rate)
    (hduration : ∀ t ∈ tones, rate * t.duration < 2 ^ 53)
    (hover : ∀ t ∈ tones, ¬ Overloaded rate gap style t) :
    ∃ parts, List.Forall₂ (IsPart rate gap style) tones parts ∧
      renderTones tones (.int rate) (.ofString style.name) (.int gap) = .ok parts.flatten := by
  have hchunks : ∃ chunks,
      (tones.mapM fun t =>
        toneWithGap (.int rate) (.ofString style.name) (.whole gap) (toneValue t)) = .ok chunks ∧
      List.Forall₂ (IsPart rate gap style) tones (chunks.map (·.map SampleNumber.clamp)) := by
    induction tones with
    | nil => exact ⟨[], rfl, .nil⟩
    | cons t tones ih =>
      rw [List.forall_mem_cons] at hduration hover
      obtain ⟨chunk, hchunk, hpart⟩ := toneWithGap_of_not_overloaded hrate hduration.1 hover.1
      obtain ⟨chunks, hchunks, hparts⟩ := ih hduration.2 hover.2
      refine ⟨chunk :: chunks, ?_, .cons hpart hparts⟩
      rw [List.mapM_cons, hchunk, hchunks]
      rfl
  obtain ⟨chunks, hmapM, hparts⟩ := hchunks
  refine ⟨_, hparts, ?_⟩
  rw [renderTones_eq tones _ _ rfl (isNegative_natCast gap), hmapM, ← List.map_flatten]
  rfl

/-- Every tone fills its place and none is moved, whatever the gap. -/
theorem renderTones_on_time (tones : List Tone) (rate gap : ℕ) (style : Style) (hrate : 1 ≤ rate)
    (hduration : ∀ t ∈ tones, rate * t.duration < 2 ^ 53) :
    (∀ duration, rate * duration < 2 ^ 53 →
      sampleCount (.whole duration) (.whole rate) = .ok (samplesIn rate duration)) ∧
    ((∃ t ∈ tones, Overloaded rate gap style t) →
      renderTones tones (.int rate) (.ofString style.name) (.int gap) =
        .error (.number .tooLarge)) ∧
    ((∀ t ∈ tones, ¬ Overloaded rate gap style t) → ∃ samples,
      renderTones tones (.int rate) (.ofString style.name) (.int gap) = .ok samples ∧
      samples.length = (tones.map fun t => samplesIn rate t.duration).sum ∧
      ∀ before t after, tones = before ++ t :: after → ∃ sounding,
        tone (.int t.frequency) (.int ↑(t.duration - gap)) (.int rate) (.ofString style.name) =
          .ok sounding ∧
        sounding.length = samplesIn rate (t.duration - gap) ∧
        (samples.drop (before.map fun t => samplesIn rate t.duration).sum).take
            (samplesIn rate t.duration) =
          sounding.map SampleNumber.clamp ++
            List.replicate (samplesIn rate t.duration - samplesIn rate (t.duration - gap)) 0.0) ∧
    (∀ others, renderTones (tones ++ others) (.int rate) (.ofString style.name) (.int gap) = do
      return (← renderTones tones (.int rate) (.ofString style.name) (.int gap)) ++
        (← renderTones others (.int rate) (.ofString style.name) (.int gap))) := by
  refine ⟨fun duration h => sampleCount_eq h, renderTones_of_overloaded hrate hduration, ?_,
    fun others => renderTones_append tones others _ _ _⟩
  intro hover
  obtain ⟨parts, hparts, hrender⟩ := exists_parts_of_not_overloaded hrate hduration hover
  have hsize : ∀ t part, IsPart rate gap style t part → part.length = samplesIn rate t.duration :=
    fun t part hpart => hpart.length_eq
  refine ⟨parts.flatten, hrender, length_flatten_of_forall₂ hsize hparts, ?_⟩
  intro before t after htones
  rw [htones] at hparts
  obtain ⟨part, hpart, hplace⟩ := exists_part_of_forall₂ hsize hparts
  obtain ⟨sounding, htone, hlength, rfl⟩ := hpart
  exact ⟨sounding, htone, hlength, hplace⟩

/-- With a gap of 20 milliseconds, a tone shorter than the gap is silent and begins behind all the
samples of the tone before it. -/
theorem renderTones_two_tones :
    1 ≤ 44100 ∧ (∀ t ∈ [Tone.mk 440 250, Tone.mk (-3) 1], 44100 * t.duration < 2 ^ 53) ∧
      ∃ samples,
        renderTones [⟨440, 250⟩, ⟨-3, 1⟩] (.int 44100) (.ofString "square") (.int 20) =
          .ok samples ∧
        samples.length = 11069 ∧ (samples.drop 11025).take 44 = List.replicate 44 0.0 := by
  have hduration : ∀ t ∈ [Tone.mk 440 250, Tone.mk (-3) 1], 44100 * t.duration < 2 ^ 53 := by
    decide
  have hfrequency : ∀ t ∈ [Tone.mk 440 250, Tone.mk (-3) 1], t.frequency.natAbs ≤ 440 := by
    decide
  have hover : ∀ t ∈ [Tone.mk 440 250, Tone.mk (-3) 1], ¬ Overloaded 44100 20 .square t := by
    have hrate : 44100 < rangeLimit := lt_rangeLimit (k := 16) (by norm_num) (by norm_num)
    rintro t ht (hlarge | ⟨hlarge, _⟩)
    · exact absurd hlarge (not_le.mpr hrate)
    · have := hfrequency t ht
      omega
  obtain ⟨_, _, hrender, _⟩ := renderTones_on_time [⟨440, 250⟩, ⟨-3, 1⟩] 44100 20 .square
    (by decide) hduration
  obtain ⟨samples, hsamples, hlength, hplaces⟩ := hrender hover
  obtain ⟨sounding, _, hsounding, hplace⟩ := hplaces [⟨440, 250⟩] ⟨-3, 1⟩ [] rfl
  refine ⟨by decide, hduration, samples, hsamples, hlength, ?_⟩
  have : sounding = [] := List.eq_nil_of_length_eq_zero hsounding
  rw [this] at hplace
  exact hplace

theorem renderTones_of_large_frequency {n : ℕ} (h : rangeLimit ≤ n) (hrate : 1 ≤ rate) :
    renderTones [⟨n, 0⟩] (.int rate) (.ofString Style.sine.name) (.int gap) =
      .error (.number .tooLarge) := by
  have hover : Overloaded rate gap .sine ⟨n, 0⟩ := Or.inr ⟨h, fun hbell => nomatch hbell.1⟩
  refine renderTones_of_overloaded hrate ?_ ⟨_, List.mem_singleton_self _, hover⟩
  intro t ht
  rw [List.mem_singleton.mp ht]
  norm_num

/-- A frequency beyond the range of binary64 numbers stops the rendering, even of a tone without
length. -/
theorem renderTones_huge_frequency :
    renderTones [⟨(2 ^ 1024 : ℕ), 0⟩] (.int 44100) (.ofString "sine") (.int 0) =
      .error (.number .tooLarge) :=
  renderTones_of_large_frequency rangeLimit_le (by decide)

end Ringtone.Sound
