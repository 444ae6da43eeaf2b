import Ringtone.Proofs.ScoreRendering
import Ringtone.Proofs.WavFiles

/-!
# Rates that overtax the rendering

At a rate that no header has room for, a compiled score may still be rendered, and a tone may ask
for more than there is: for a number of samples that is beyond the range of binary64 numbers, or for
bytes that have addresses and that no memory holds. No message tells of these. All else that keeps
compiled tones from being rendered has its words.
-/

namespace Ringtone

open Number

/-! ## Quotients of either sign -/

namespace Number

/-- Within the range, the number nearest to a rational number has a whole part. -/
theorem Binary64.truncate?_ofRat {x : ℚ} (h : |x| < rangeLimit) :
    (Binary64.ofRat x).truncate? = .ok (truncate (nearest x)) ∧
      ∀ negative, Binary64.ofRat x ≠ .infinite negative := by
  obtain ⟨hlow, hhigh⟩ := abs_lt.mp h
  rw [Binary64.ofRat]
  by_cases hzero : nearest x = 0
  · rw [if_pos hzero, hzero]
    by_cases hx : x < 0
    · rw [if_pos hx]
      exact ⟨rfl, by rintro _ ⟨⟩⟩
    · rw [if_neg hx]
      exact ⟨rfl, by rintro _ ⟨⟩⟩
  · rw [if_neg hzero, if_neg (not_le.mpr (nearest_lt_overflow hhigh)),
      if_neg (not_le.mpr (neg_overflow_lt_nearest hlow))]
    exact ⟨rfl, by rintro _ ⟨⟩⟩

/-- Beyond the range there is an infinity. -/
theorem Binary64.exists_infinite {x : ℚ} (h : rangeLimit ≤ |x|) :
    ∃ negative, Binary64.ofRat x = .infinite negative := by
  rcases le_abs.mp h with hx | hx
  · exact ⟨false, Binary64.ofRat_of_le hx⟩
  · have hover : (0 : ℚ) < Binary64.overflow := pow2_pos _
    have hround := (overflow_le_nearest_iff _).mpr hx
    rw [nearest_neg] at hround
    rw [Binary64.ofRat, if_neg (by linarith), if_neg (by linarith), if_pos (by linarith)]
    exact ⟨true, rfl⟩

end Number

namespace Sound

variable {rate : ℤ} {duration gap : ℕ} {style : Style} {t : Tone} {fault : Fault}

/-! ## Numbers of samples -/

/-- The number of samples of a length at a rate is beyond the range of binary64 numbers. -/
def BeyondRange (rate : ℤ) (duration : ℕ) : Prop := 1000 * rangeLimit ≤ (rate * duration).natAbs

/-- The number of samples of a length at a rate, below zero at a rate that is. -/
def countIn (rate : ℤ) (duration : ℕ) : ℤ := truncate (nearest ((rate * duration : ℤ) / 1000))

theorem abs_thousandths (n : ℤ) : |(n : ℚ) / 1000| = n.natAbs / 1000 := by
  rw [abs_div, Nat.cast_natAbs, Int.cast_abs, abs_of_pos (by norm_num : (0 : ℚ) < 1000)]

theorem rangeLimit_le_abs_iff (n : ℤ) :
    (rangeLimit : ℚ) ≤ |(n : ℚ) / 1000| ↔ 1000 * rangeLimit ≤ n.natAbs := by
  rw [abs_thousandths, le_div_iff₀ (by norm_num), mul_comm]
  exact_mod_cast Iff.rfl

theorem divNat_whole (n : ℤ) : (Quantity.whole n).divNat 1000 =
    match Binary64.ofRat ((n : ℚ) / 1000) with
    | .infinite _ => .error .tooLarge
    | quotient => .ok quotient :=
  rfl

theorem sampleCount_whole (rate : ℤ) (duration : ℕ) :
    sampleCount (.whole duration) (.whole rate) =
      ((Quantity.whole (rate * duration)).divNat 1000).bind Binary64.truncate? :=
  rfl

theorem sampleCount_of_beyondRange (h : BeyondRange rate duration) :
    sampleCount (.whole duration) (.whole rate) = .error .tooLarge := by
  obtain ⟨negative, hinfinite⟩ := Binary64.exists_infinite ((rangeLimit_le_abs_iff _).mpr h)
  rw [sampleCount_whole, divNat_whole, hinfinite]
  rfl

theorem sampleCount_of_not_beyondRange (h : ¬ BeyondRange rate duration) :
    sampleCount (.whole duration) (.whole rate) = .ok (countIn rate duration) := by
  have hrange := lt_of_not_ge (mt (rangeLimit_le_abs_iff (rate * duration)).mp h)
  obtain ⟨htruncate, hfinite⟩ := Binary64.truncate?_ofRat hrange
  rw [countIn, ← htruncate, sampleCount_whole, divNat_whole]
  cases hquotient : Binary64.ofRat (((rate * duration : ℤ) : ℚ) / 1000) with
  | infinite negative => exact absurd hquotient (hfinite negative)
  | finite _ | negativeZero | nan => rfl

@[simp]
theorem countIn_neg (rate : ℤ) (duration : ℕ) :
    countIn (-rate) duration = -countIn rate duration := by
  rw [countIn, countIn, neg_mul, Int.cast_neg, neg_div, nearest_neg, truncate_neg]

@[simp]
theorem countIn_zero (rate : ℤ) : countIn rate 0 = 0 := by
  rw [countIn, Nat.cast_zero, mul_zero, Int.cast_zero, zero_div, nearest_zero]
  rfl

theorem countIn_natCast (rate duration : ℕ) :
    countIn rate duration = ⌊nearest ((rate * duration : ℕ) / 1000)⌋ := by
  have hcast : (((rate : ℤ) * duration : ℤ) : ℚ) = (rate * duration : ℕ) := by push_cast; rfl
  rw [countIn, hcast, truncate_of_nonneg (nearest_nonneg (by positivity))]

theorem countIn_nonneg (rate duration : ℕ) : 0 ≤ countIn rate duration := by
  rw [countIn_natCast]
  exact Int.floor_nonneg.mpr (nearest_nonneg (by positivity))

theorem countIn_mono (rate : ℕ) {shorter : ℕ} (h : shorter ≤ duration) :
    countIn rate shorter ≤ countIn rate duration := by
  rw [countIn_natCast, countIn_natCast]
  refine Int.floor_mono (nearest_mono (div_le_div_of_nonneg_right ?_ (by norm_num)))
  exact_mod_cast Nat.mul_le_mul_left rate h

/-- A number of samples that is an address comes of a product that is not much greater. -/
theorem mul_lt_of_countIn_lt {rate : ℕ} (h : countIn rate duration < 2 ^ 64) :
    rate * duration < 1000 * 2 ^ 64 := by
  by_contra hlarge
  have hquotient : pow2 64 ≤ ((rate * duration : ℕ) : ℚ) / 1000 := by
    rw [show (64 : ℤ) = (64 : ℕ) from rfl, pow2_natCast, le_div_iff₀ (by norm_num)]
    exact_mod_cast (mul_comm _ _).trans_le (not_lt.mp hlarge)
  have hround := le_nearest (onGrid_pow2 (by decide)) hquotient
  have hfloor : (2 ^ 64 : ℤ) ≤ countIn rate duration := by
    rw [countIn_natCast, Int.le_floor]
    exact_mod_cast (pow2_natCast 64).symm.trans_le hround
  omega

theorem natAbs_mul_lt (hlow : -2 ^ 64 < countIn rate duration)
    (hhigh : countIn rate duration < 2 ^ 64) : (rate * duration).natAbs < 1000 * 2 ^ 64 := by
  rw [Int.natAbs_mul, Int.natAbs_natCast]
  refine mul_lt_of_countIn_lt ?_
  rcases Int.natAbs_eq rate with hrate | hrate
  · rwa [← hrate]
  · rw [hrate, countIn_neg] at hlow
    omega

theorem le_rangeLimit : 1000 * 2 ^ 64 * longestLength ≤ rangeLimit :=
  (lt_rangeLimit (k := 100) (by norm_num) (by norm_num [longestLength])).le

theorem not_beyondRange_of_lt (h : (rate * duration).natAbs < 1000 * 2 ^ 64) :
    ¬ BeyondRange rate duration := by
  have hlimit := le_rangeLimit
  rw [longestLength] at hlimit
  rw [BeyondRange]
  omega

/-- If some part of a compiled tone sounds, and the samples of that part are few enough to have
addresses, neither the rate nor the samples of the whole tone are beyond the range. -/
theorem within_of_sounding (ht : t.IsCompiled) {sounding : ℕ} (hsounding : 1 ≤ sounding)
    (h : (rate * sounding).natAbs < 1000 * 2 ^ 64) :
    rate.natAbs < rangeLimit ∧ ¬ BeyondRange rate t.duration := by
  rw [Int.natAbs_mul, Int.natAbs_natCast] at h
  have hrate : rate.natAbs < 1000 * 2 ^ 64 := (Nat.le_mul_of_pos_right _ hsounding).trans_lt h
  have hlimit := le_rangeLimit
  have hone : 1 ≤ longestLength := by decide
  constructor
  · exact hrate.trans_le ((Nat.le_mul_of_pos_right _ hone).trans hlimit)
  · have hproduct : rate.natAbs * t.duration ≤ 1000 * 2 ^ 64 * longestLength :=
      Nat.mul_le_mul hrate.le ht.duration_le
    rw [BeyondRange, Int.natAbs_mul, Int.natAbs_natCast]
    have hpos : 0 < rangeLimit := lt_rangeLimit (k := 0) (by norm_num) (by norm_num)
    omega

/-! ## What overtaxes a tone -/

/-- So many samples have addresses, and no memory. -/
def LacksMemory (count : ℤ) : Prop :=
  platform.memoryLimit ≤ count * platform.sampleSize ∧
    count * platform.sampleSize < platform.addressLimit

theorem lacksMemory_iff {count : ℤ} :
    LacksMemory count ↔ 2 ^ 47 ≤ count * 8 ∧ count * 8 < 2 ^ 63 := Iff.rfl

theorem addressable_of_lacksMemory {count : ℤ} (h : LacksMemory count) (fault : Fault) :
    addressable fault count = .error .outOfMemory := by
  obtain ⟨hlow, hhigh⟩ := lacksMemory_iff.mp h
  rw [addressable_eq, if_neg (by omega), if_neg (by omega), if_pos hlow]

theorem addressable_of_small {count : ℤ} (hlow : -2 ^ 63 ≤ count) (hhigh : count * 8 < 2 ^ 47)
    (fault : Fault) : addressable fault count = .ok count := by
  rw [addressable_eq, if_neg (by omega), if_neg (by omega), if_neg (by omega)]

/-- There is room for so many samples, or no memory for them, or a fault that is not silent. -/
theorem addressable_cases (fault : Fault) (count : ℤ) :
    addressable fault count = .ok count ∧ -2 ^ 63 ≤ count ∧ count * 8 < 2 ^ 47 ∨
      addressable fault count = .error .outOfMemory ∧ LacksMemory count ∨
      addressable fault count = .error fault ∨
      addressable fault count = .error .samplesTooLarge := by
  rw [lacksMemory_iff, addressable_eq]
  split_ifs with hnumber hbytes hmemory
  · exact Or.inr (Or.inr (Or.inl rfl))
  · exact Or.inr (Or.inr (Or.inr rfl))
  · exact Or.inr (Or.inl ⟨rfl, hmemory, not_le.mp hbytes⟩)
  · exact Or.inl ⟨rfl, by omega, by omega⟩

/-- What a tone and the silence behind it ask for at a rate, beyond what there is and without a
message that says so. -/
inductive Overtaxes (rate : ℤ) (gap : ℕ) (t : Tone) : Fault → Prop
  /-- The number of samples of the part that sounds is beyond the range. -/
  | soundingRange (h : BeyondRange rate (t.duration - gap)) :
    Overtaxes rate gap t (.number .tooLarge)
  /-- There is no memory for the part that sounds. -/
  | soundingMemory (h : LacksMemory (countIn rate (t.duration - gap))) :
    Overtaxes rate gap t .outOfMemory
  /-- Nothing sounds, and the rate or the number of samples of the silence is beyond the range. -/
  | silenceRange (hsilent : t.duration ≤ gap)
      (h : rangeLimit ≤ rate.natAbs ∨ BeyondRange rate t.duration) :
    Overtaxes rate gap t (.number .tooLarge)
  /-- There is memory for the part that sounds, and none for the silence. -/
  | silenceMemory
      (hsounding : countIn rate (t.duration - gap) * platform.sampleSize < platform.memoryLimit)
      (h : LacksMemory (countIn rate t.duration - countIn rate (t.duration - gap))) :
    Overtaxes rate gap t .outOfMemory

/-! ## A tone without its silence -/

theorem abs_nearest_lt {n : ℤ} (h : n.natAbs < rangeLimit) : |nearest n| < rangeLimit := by
  have hn : |(n : ℚ)| < rangeLimit := by
    rw [← Int.cast_abs, Int.abs_eq_natAbs]
    exact_mod_cast h
  obtain ⟨hlow, hhigh⟩ := abs_lt.mp hn
  have hneg := nearest_lt_rangeLimit (x := -n) (by linarith)
  rw [nearest_neg] at hneg
  exact abs_lt.mpr ⟨by linarith, nearest_lt_rangeLimit hhigh⟩

/-- The length of a fade is a whole number at every rate within the range, also below zero. -/
theorem exists_fadeLength_of_lt (h : rate.natAbs < rangeLimit) (count : ℕ) :
    ∃ length, fadeLength count (.whole rate) = .ok length := by
  obtain ⟨hhundredth, hpos, hle⟩ := nearest_hundredth
  have hproduct : |nearest rate * nearest (1 / 100)| < rangeLimit := by
    rw [abs_mul, abs_of_pos hpos]
    exact (mul_le_of_le_one_right (abs_nonneg _) hle).trans_lt (abs_nearest_lt h)
  obtain ⟨tenMilliseconds, hwhole⟩ : ∃ whole,
      ((Binary64.finite (nearest rate)).mul (.ofRat (1 / 100))).truncate? = .ok whole := by
    rw [hhundredth]
    simp only [Binary64.mul, Binary64.toRat?]
    split_ifs
    · rw [Binary64.zero]
      split_ifs
      · exact ⟨_, rfl⟩
      · exact ⟨_, rfl⟩
    · exact ⟨_, (Binary64.truncate?_ofRat hproduct).1⟩
  rw [fadeLength, Binary64.toReal_whole h]
  show ∃ length, Except.bind (Binary64.truncate? _) _ = _
  rw [hwhole]
  exact ⟨_, rfl⟩

/-- Within the range every rate has a fade, also one below zero, at which there are no samples. -/
theorem exists_fadeEnvelope (h : rate.natAbs < rangeLimit) (duration : ℕ) :
    ∃ factors, fadeEnvelope (countIn rate duration).toNat (.whole rate) = .ok factors := by
  rcases lt_or_ge 0 rate with hpos | hneg
  · obtain ⟨n, rfl⟩ := Int.eq_ofNat_of_zero_le hpos.le
    have hone : 1 ≤ n := by omega
    obtain ⟨length, hlength⟩ := exists_fadeLength (countIn n duration).toNat hone (by simpa using h)
    exact ⟨_, fadeEnvelope_of_fadeLength hlength⟩
  · have hcount : (countIn rate duration).toNat = 0 := by
      have hnonneg := countIn_nonneg rate.natAbs duration
      rw [Int.ofNat_natAbs_of_nonpos hneg, countIn_neg] at hnonneg
      omega
    obtain ⟨length, hlength⟩ := exists_fadeLength_of_lt h 0
    rw [hcount, fadeEnvelope, hlength]
    show ∃ factors, fade 0 length = .ok factors
    rw [fade_eq_stepsOf (fadeLength_le hlength), stepsOf]
    split_ifs
    · exact ⟨_, rfl⟩
    · exact ⟨_, rfl⟩
    · omega

theorem tone_of_beyondRange (frequency : ℤ) (style : Style) (h : BeyondRange rate duration) :
    tone (.int frequency) (.int duration) (.int rate) (.ofString style.name) =
      .error (.number .tooLarge) := by
  simp only [tone, style_ofValue_name, Value.quantity, bind, Except.bind,
    sampleCount_of_beyondRange h, ofNumber, Except.mapError]

theorem tone_of_not_addressable (frequency : ℤ) (style : Style) (h : ¬ BeyondRange rate duration)
    (hroom : addressable .lengthTooLarge (countIn rate duration) = .error fault) :
    tone (.int frequency) (.int duration) (.int rate) (.ofString style.name) = .error fault := by
  simp only [tone, style_ofValue_name, Value.quantity, bind, Except.bind,
    sampleCount_of_not_beyondRange h, ofNumber, Except.mapError, hroom]

theorem tone_of_rate_beyond (frequency : ℤ) (style : Style) (h : ¬ BeyondRange rate duration)
    (hroom : addressable .lengthTooLarge (countIn rate duration) = .ok (countIn rate duration))
    (hrate : rangeLimit ≤ rate.natAbs) :
    tone (.int frequency) (.int duration) (.int rate) (.ofString style.name) =
      .error (.number .tooLarge) := by
  simp only [tone, style_ofValue_name, Value.quantity, bind, Except.bind,
    sampleCount_of_not_beyondRange h, ofNumber, Except.mapError, hroom,
    Binary64.toReal_whole_eq_error hrate]

theorem exists_tone (style : Style) {frequency : ℤ} (hfrequency : frequency.natAbs < rangeLimit)
    (h : ¬ BeyondRange rate duration)
    (hroom : addressable .lengthTooLarge (countIn rate duration) = .ok (countIn rate duration))
    (hrate : rate.natAbs < rangeLimit) :
    ∃ samples, tone (.int frequency) (.int duration) (.int rate) (.ofString style.name) =
      .ok samples := by
  obtain ⟨factors, hfactors⟩ := exists_fadeEnvelope hrate duration
  simp only [tone, style_ofValue_name, Value.quantity, bind, Except.bind,
    sampleCount_of_not_beyondRange h, ofNumber, Except.mapError, hroom,
    Binary64.toReal_whole hrate, Binary64.toReal_whole hfrequency]
  split_ifs
  · exact ⟨_, rfl⟩
  · cases style with
    | sine =>
      rw [hfactors]
      exact ⟨_, rfl⟩
    | square | bell => exact ⟨_, rfl⟩

/-! ## A tone with its silence -/

theorem toneWithGap_of_tone_error (h : tone (.int t.frequency) (.int ↑(t.duration - gap))
      (.int rate) (.ofString style.name) = .error fault) :
    toneWithGap (.int rate) (.ofString style.name) (.whole gap) (toneValue t) = .error fault := by
  simp only [toneWithGap, toneValue, pairOf, partsOf, Value.quantity, Quantity.sub, bind,
    Except.bind, pure, Except.pure, ofNumber, Except.mapError, orZero_sub, quantityValue, h]

theorem toneWithGap_of_tone {samples : List Float} (h : tone (.int t.frequency)
      (.int ↑(t.duration - gap)) (.int rate) (.ofString style.name) = .ok samples)
    (hsounding : ¬ BeyondRange rate (t.duration - gap)) :
    toneWithGap (.int rate) (.ofString style.name) (.whole gap) (toneValue t) =
      (ofNumber (sampleCount (.whole t.duration) (.whole rate))).bind fun whole =>
        (addressable .silenceTooLarge (whole - countIn rate (t.duration - gap))).bind fun rest =>
          if rest < 0 then .error .negativeLength
          else .ok (samples ++ List.replicate rest.toNat 0.0) := by
  have hcount := sampleCount_of_not_beyondRange hsounding
  simp only [toneWithGap, toneValue, pairOf, partsOf, Value.quantity, Quantity.sub, bind,
    Except.bind, pure, Except.pure, ofNumber, Except.mapError, orZero_sub, quantityValue, h, hcount]
  cases sampleCount (.whole t.duration) (.whole rate) with
  | error _ => rfl
  | ok whole =>
    dsimp only
    cases addressable .silenceTooLarge (whole - countIn rate (t.duration - gap)) with
    | error _ => rfl
    | ok rest => rfl

/-- Where there is room for the part that sounds, the rate and the silence may still ask too
much. -/
theorem overtaxes_of_room (ht : t.IsCompiled) (hsounding : ¬ BeyondRange rate (t.duration - gap))
    (hroom : addressable .lengthTooLarge (countIn rate (t.duration - gap)) =
      .ok (countIn rate (t.duration - gap)))
    (hlow : -2 ^ 63 ≤ countIn rate (t.duration - gap))
    (hhigh : countIn rate (t.duration - gap) * 8 < 2 ^ 47)
    (h : toneWithGap (.int rate) (.ofString style.name) (.whole gap) (toneValue t) = .error fault)
    (hsilent : fault.message? = none) : Overtaxes rate gap t fault := by
  -- a part that sounds keeps the rate and the whole tone within the range
  have hproduct : (rate * ↑(t.duration - gap)).natAbs < 1000 * 2 ^ 64 :=
    natAbs_mul_lt (by omega) (by omega)
  have hwithin : ¬ t.duration ≤ gap → rate.natAbs < rangeLimit ∧ ¬ BeyondRange rate t.duration :=
    fun hsounds => within_of_sounding ht (by omega) hproduct
  rcases le_or_gt rangeLimit rate.natAbs with hrate | hrate
  · rw [toneWithGap_of_tone_error (tone_of_rate_beyond _ _ hsounding hroom hrate)] at h
    cases h
    exact .silenceRange (by_contra fun hsounds => absurd (hwithin hsounds).1 (not_lt.mpr hrate))
      (Or.inl hrate)
  · obtain ⟨samples, htone⟩ := exists_tone style ht.frequency_lt hsounding hroom hrate
    rw [toneWithGap_of_tone htone hsounding] at h
    by_cases hwhole : BeyondRange rate t.duration
    · rw [sampleCount_of_beyondRange hwhole] at h
      cases h
      exact .silenceRange (by_contra fun hsounds => (hwithin hsounds).2 hwhole) (Or.inr hwhole)
    · rw [sampleCount_of_not_beyondRange hwhole] at h
      change (addressable _ (countIn rate t.duration - countIn rate (t.duration - gap))).bind _ = _
        at h
      rcases addressable_cases .silenceTooLarge
          (countIn rate t.duration - countIn rate (t.duration - gap)) with
        ⟨hrest, _⟩ | ⟨hrest, hmemory⟩ | hrest | hrest
      · rw [hrest] at h
        change (if _ then _ else _) = _ at h
        split_ifs at h
        cases h
        cases hsilent
      · rw [hrest] at h
        cases h
        exact .silenceMemory hhigh hmemory
      all_goals
        rw [hrest] at h
        cases h
        cases hsilent

/-- Where nothing sounds, a rate or a silence beyond the range is met. -/
theorem toneWithGap_of_silence (hfrequency : t.frequency.natAbs < rangeLimit)
    (hsilent : t.duration ≤ gap) (h : rangeLimit ≤ rate.natAbs ∨ BeyondRange rate t.duration) :
    toneWithGap (.int rate) (.ofString style.name) (.whole gap) (toneValue t) =
      .error (.number .tooLarge) := by
  have hnone : t.duration - gap = 0 := Nat.sub_eq_zero_of_le hsilent
  have hsounding : ¬ BeyondRange rate (t.duration - gap) := by
    rw [hnone]
    exact not_beyondRange_of_lt (by simp)
  have hroom : addressable .lengthTooLarge (countIn rate (t.duration - gap)) =
      .ok (countIn rate (t.duration - gap)) := by
    rw [hnone, countIn_zero]
    rfl
  rcases le_or_gt rangeLimit rate.natAbs with hrate | hrate
  · exact toneWithGap_of_tone_error (tone_of_rate_beyond _ _ hsounding hroom hrate)
  · obtain ⟨samples, htone⟩ := exists_tone style hfrequency hsounding hroom hrate
    rw [toneWithGap_of_tone htone hsounding,
      sampleCount_of_beyondRange (h.resolve_left (not_le.mpr hrate))]
    rfl

/-- A silence that there is no memory for is met behind a part that there is memory for. -/
theorem toneWithGap_of_silenceMemory (ht : t.IsCompiled)
    (hsounding : countIn rate (t.duration - gap) * platform.sampleSize < platform.memoryLimit)
    (h : LacksMemory (countIn rate t.duration - countIn rate (t.duration - gap))) :
    toneWithGap (.int rate) (.ofString style.name) (.whole gap) (toneValue t) =
      .error .outOfMemory := by
  have hhigh : countIn rate (t.duration - gap) * 8 < 2 ^ 47 := hsounding
  obtain ⟨hrestLow, hrestHigh⟩ := lacksMemory_iff.mp h
  rcases Int.natAbs_eq rate with hrate | hrate
  · have hnonneg := countIn_nonneg rate.natAbs (t.duration - gap)
    rw [← hrate] at hnonneg
    have hroom := addressable_of_small (by omega) hhigh .lengthTooLarge
    have hproduct : (rate * t.duration).natAbs < 1000 * 2 ^ 64 :=
      natAbs_mul_lt (by omega) (by omega)
    have hwhole := not_beyondRange_of_lt hproduct
    have hpart : ¬ BeyondRange rate (t.duration - gap) :=
      not_beyondRange_of_lt (natAbs_mul_lt (by omega) (by omega))
    have hlength : 1 ≤ t.duration := by
      by_contra hzero
      rw [show t.duration = 0 by omega, Nat.zero_sub, sub_self] at hrestLow
      omega
    obtain ⟨hrange, -⟩ := within_of_sounding ht hlength hproduct
    obtain ⟨samples, htone⟩ := exists_tone style ht.frequency_lt hpart hroom hrange
    rw [toneWithGap_of_tone htone hpart, sampleCount_of_not_beyondRange hwhole]
    show (addressable _ (countIn rate t.duration - countIn rate (t.duration - gap))).bind _ = _
    rw [addressable_of_lacksMemory h]
    rfl
  · -- at a rate below zero, more of it is less
    have hmono := countIn_mono rate.natAbs (Nat.sub_le t.duration gap)
    rw [hrate, countIn_neg, countIn_neg] at hrestLow
    omega

/-- A tone is not rendered and no message says so exactly when it overtaxes the rendering. -/
theorem toneWithGap_silent_iff (style : Style) (ht : t.IsCompiled) :
    toneWithGap (.int rate) (.ofString style.name) (.whole gap) (toneValue t) = .error fault ∧
        fault.message? = none ↔
      Overtaxes rate gap t fault := by
  have hfrequency := ht.frequency_lt
  constructor
  · rintro ⟨herror, hsilent⟩
    by_cases hsounding : BeyondRange rate (t.duration - gap)
    · rw [toneWithGap_of_tone_error (tone_of_beyondRange _ _ hsounding)] at herror
      cases herror
      exact .soundingRange hsounding
    rcases addressable_cases .lengthTooLarge (countIn rate (t.duration - gap)) with
      ⟨hroom, hlow, hhigh⟩ | ⟨hroom, hmemory⟩ | hroom | hroom
    · exact overtaxes_of_room ht hsounding hroom hlow hhigh herror hsilent
    · rw [toneWithGap_of_tone_error (tone_of_not_addressable _ _ hsounding hroom)] at herror
      cases herror
      exact .soundingMemory hmemory
    all_goals
      rw [toneWithGap_of_tone_error (tone_of_not_addressable _ _ hsounding hroom)] at herror
      cases herror
      cases hsilent
  · rintro (hsounding | hmemory | ⟨hsilent, hbeyond⟩ | ⟨hsounding, hmemory⟩)
    · exact ⟨toneWithGap_of_tone_error (tone_of_beyondRange _ _ hsounding), rfl⟩
    · obtain ⟨hlow, hhigh⟩ := lacksMemory_iff.mp hmemory
      have hsounding : ¬ BeyondRange rate (t.duration - gap) :=
        not_beyondRange_of_lt (natAbs_mul_lt (by omega) (by omega))
      have hroom := addressable_of_lacksMemory hmemory .lengthTooLarge
      exact ⟨toneWithGap_of_tone_error (tone_of_not_addressable _ _ hsounding hroom), rfl⟩
    · exact ⟨toneWithGap_of_silence hfrequency hsilent hbeyond, rfl⟩
    · exact ⟨toneWithGap_of_silenceMemory ht hsounding hmemory, rfl⟩

/-- At a rate that the header has room for, no compiled tone asks too much. -/
theorem not_overtaxes_of_hasRoom (ht : t.IsCompiled) (hroom : HasRoom rate) :
    ¬ Overtaxes rate gap t fault := by
  obtain ⟨rate, rfl⟩ := Int.eq_ofNat_of_zero_le hroom.1
  have hlimit : 2 * rate < wordLimit := by exact_mod_cast hroom.2
  have hproduct := mul_duration_lt ht hlimit
  have hsmall : ∀ length ≤ t.duration, (rate * length) < 2 ^ 53 := fun length hle =>
    (Nat.mul_le_mul_left rate hle).trans_lt hproduct
  have hwithin : ∀ length ≤ t.duration, ¬ BeyondRange rate length := fun length hle =>
    not_beyondRange_of_lt (by
      rw [← Nat.cast_mul, Int.natAbs_natCast]
      exact (hsmall length hle).trans (by norm_num))
  have hcount : ∀ length ≤ t.duration, countIn rate length < 2 ^ 44 := by
    intro length hle
    have := hsmall length hle
    rw [countIn_natCast, floor_nearest_div_thousand this]
    omega
  have hpart := hcount _ (Nat.sub_le t.duration gap)
  rintro (hbeyond | hmemory | ⟨_, hrate | hbeyond⟩ | ⟨_, hmemory⟩)
  · exact hwithin _ (Nat.sub_le _ _) hbeyond
  · rw [lacksMemory_iff] at hmemory
    omega
  · have hrange : rate < rangeLimit := by
      rw [wordLimit] at hlimit
      exact lt_rangeLimit (k := 31) (by norm_num) (by omega)
    rw [Int.natAbs_natCast] at hrate
    omega
  · exact hwithin _ le_rfl hbeyond
  · have hwhole := hcount _ le_rfl
    have hnonneg := countIn_nonneg rate (t.duration - gap)
    rw [lacksMemory_iff] at hmemory
    omega

/-! ## All tones -/

theorem exists_mapM_of_forall {α β ε : Type} {f : α → Except ε β} {l : List α}
    (h : ∀ a ∈ l, ∃ b, f a = .ok b) : ∃ results, l.mapM f = .ok results := by
  cases hresults : l.mapM f with
  | ok results => exact ⟨results, rfl⟩
  | error fault =>
    obtain ⟨before, a, after, rfl, _, ha⟩ := mapM_eq_error_iff.mp hresults
    obtain ⟨b, hb⟩ := h a (by simp)
    rw [hb] at ha
    cases ha

/-- Compiled tones are not rendered and no message says so exactly when the gap and the style are
valid and a tone behind others that are rendered overtaxes the rendering. -/
theorem renderTones_silent_iff {tones : List Tone} (htones : ∀ t ∈ tones, t.IsCompiled)
    {style : Value} (hfits : style.Fits Value.levelLimit) {gap : ℤ} :
    renderTones tones (.int rate) style (.int gap) = .error fault ∧ fault.message? = none ↔
      ∃ (known : Style) (length : ℕ) (before after : List Tone) (t : Tone) (samples : List Float),
        style = .ofString known.name ∧ gap = length ∧ tones = before ++ t :: after ∧
          renderTones before (.int rate) style (.int gap) = .ok samples ∧
          Overtaxes rate length t fault := by
  constructor
  · rintro ⟨herror, hsilent⟩
    have hwords : ¬ ∃ message, fault.message? = some message := by simp [hsilent]
    rcases lt_or_ge gap 0 with hgap | hgap
    · rw [renderTones_of_negative_gap hgap] at herror
      rw [← Except.error.inj herror] at hwords
      exact absurd (Fault.exists_message_aboutWithin ⟨_, rfl⟩ (Value.fits_int gap)) hwords
    · obtain ⟨length, rfl⟩ := Int.eq_ofNat_of_zero_le hgap
      rw [renderTones_eq tones _ _ rfl (isNegative_natCast length), map_eq_error_iff] at herror
      obtain ⟨before, t, after, rfl, hbefore, hfirst⟩ := mapM_eq_error_iff.mp herror
      cases hstyle : Style.ofValue style with
      | error unknown =>
        rw [toneWithGap_of_unknown_style hstyle] at hfirst
        rw [Except.error.inj hfirst] at hstyle
        exact absurd (exists_message_of_style_ofValue hfits hstyle) hwords
      | ok known =>
        obtain rfl := eq_ofString_of_style_ofValue hstyle
        obtain ⟨chunks, hchunks⟩ := exists_mapM_of_forall hbefore
        have hrendered : renderTones before (.int rate) (.ofString known.name) (.int length) =
            .ok (chunks.flatten.map SampleNumber.clamp) := by
          rw [renderTones_eq before _ _ rfl (isNegative_natCast length), hchunks]
          rfl
        exact ⟨known, length, before, after, t, _, rfl, rfl, rfl, hrendered,
          (toneWithGap_silent_iff known (htones t (by simp))).mp ⟨hfirst, hsilent⟩⟩
  · rintro ⟨known, length, before, after, t, samples, rfl, rfl, rfl, hbefore, hovertaxes⟩
    obtain ⟨hfirst, hsilent⟩ := (toneWithGap_silent_iff known (htones t (by simp))).mpr hovertaxes
    refine ⟨?_, hsilent⟩
    have hrest : renderTones (t :: after) (.int rate) (.ofString known.name) (.int length) =
        .error fault := by
      rw [renderTones_eq _ _ _ rfl (isNegative_natCast length), map_eq_error_iff,
        mapM_eq_error_iff]
      exact ⟨[], t, after, rfl, List.forall_mem_nil _, hfirst⟩
    rw [renderTones_append, hbefore, hrest]
    rfl

end Sound

end Ringtone
