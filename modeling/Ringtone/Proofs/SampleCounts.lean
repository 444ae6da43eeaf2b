import Ringtone.Proofs.ScoreRendering

/-!
# The number of samples of a length

The number of samples is read off a quotient that was rounded, and is exact all the same. What
follows for exact quotients so holds for the numbers that are computed: more samples for a longer
time or a higher rate, and a silence behind a tone that is never shorter than nothing.
-/

namespace Ringtone.Sound

open Number

/-! ## Where a negative number of samples does not come from -/

section Outcomes

variable {α β ε : Type} {fault : ε}

/-- A fault that comes from no step does not come from the steps together. -/
theorem bind_ne_error {outcome : Except ε α} {next : α → Except ε β} (h : outcome ≠ .error fault)
    (hnext : ∀ a, next a ≠ .error fault) : (outcome >>= next) ≠ .error fault := by
  cases outcome with
  | error other => exact fun hother => h (congrArg Except.error (Except.error.inj hother))
  | ok a => exact hnext a

end Outcomes

theorem about_ne_negativeLength (fault : Value → Fault) (h : ∀ given, fault given ≠ .negativeLength)
    (given : Value) : Fault.about fault given ≠ .negativeLength := by
  rw [Fault.about, Fault.aboutWithin]
  cases given.obstacle? Value.levelLimit with
  | none => exact h given
  | some obstacle => cases obstacle <;> rintro ⟨⟩

theorem style_ofValue_ne_negativeLength (style : Value) :
    Style.ofValue style ≠ .error .negativeLength := by
  intro h
  unfold Style.ofValue at h
  dsimp only at h
  split at h
  · cases h
  · exact about_ne_negativeLength .unknownStyle (by rintro _ ⟨⟩) style (Except.error.inj h)

theorem quantity_ne_negativeLength (value : Value) : value.quantity ≠ .error .negativeLength := by
  cases value <;> rintro ⟨⟩

theorem ofNumber_ne_negativeLength {α : Type} (outcome : Except NumberFault α) :
    ofNumber outcome ≠ .error .negativeLength := by
  cases outcome <;> rintro ⟨⟩

theorem addressable_ne_negativeLength (fault : Fault) (h : fault ≠ .negativeLength) (count : ℤ) :
    addressable fault count ≠ .error .negativeLength := by
  rw [addressable]
  split_ifs
  · exact fun hother => h (Except.error.inj hother)
  all_goals rintro ⟨⟩

theorem fadeEnvelope_ne_negativeLength (count : ℕ) (rate : Quantity) :
    fadeEnvelope count rate ≠ .error .negativeLength := by
  rw [fadeEnvelope]
  cases hlength : fadeLength count rate with
  | error fault => rintro ⟨⟩
  | ok length =>
    show fade count length ≠ _
    rw [fade_eq_stepsOf (fadeLength_le hlength), stepsOf]
    split_ifs <;> rintro ⟨⟩

/-- A tone by itself is never said to have a negative number of samples. -/
theorem tone_ne_negativeLength (frequency duration rate style : Value) :
    tone frequency duration rate style ≠ .error .negativeLength := by
  rw [tone]
  refine bind_ne_error (style_ofValue_ne_negativeLength style) fun style => ?_
  refine bind_ne_error (quantity_ne_negativeLength rate) fun rate => ?_
  refine bind_ne_error (quantity_ne_negativeLength duration) fun duration => ?_
  refine bind_ne_error (ofNumber_ne_negativeLength _) fun counted => ?_
  refine bind_ne_error (addressable_ne_negativeLength _ (by rintro ⟨⟩) counted) fun count => ?_
  refine bind_ne_error (ofNumber_ne_negativeLength _) fun realRate => ?_
  dsimp only
  split_ifs
  · rintro ⟨⟩
  · have hsamples : ∀ factors, (do
        let realFrequency ← ofNumber (← frequency.quantity).toReal
        return wave style realFrequency.toFloat realRate.toFloat count.toNat factors) ≠
          Except.error Fault.negativeLength := by
      intro factors
      refine bind_ne_error (quantity_ne_negativeLength frequency) fun frequency => ?_
      exact bind_ne_error (ofNumber_ne_negativeLength _) (by rintro _ ⟨⟩)
    cases style with
    | sine => exact bind_ne_error (fadeEnvelope_ne_negativeLength _ _) hsamples
    | square | bell => exact hsamples []

/-! ## The silence behind a tone -/

variable {rate : ℕ}

theorem samplesIn_mono_both {slower shorter duration : ℕ} (hrate : slower ≤ rate)
    (hduration : shorter ≤ duration) : samplesIn slower shorter ≤ samplesIn rate duration :=
  Nat.div_le_div_right (Nat.mul_le_mul hrate hduration)

/-- The silence makes up for what the gap takes from the tone, which is not below zero. -/
theorem toneWithGap_ne_negativeLength {t : Tone} (h : rate * t.duration < 2 ^ 53) (style : Value)
    (gap : ℕ) :
    toneWithGap (.int rate) style (.whole gap) (toneValue t) ≠ .error .negativeLength := by
  have hmono : samplesIn rate (t.duration - gap) ≤ samplesIn rate t.duration :=
    samplesIn_mono (Nat.sub_le _ _)
  have hroom : samplesIn rate t.duration - samplesIn rate (t.duration - gap) ≤ 2 ^ 53 / 1000 :=
    (Nat.sub_le _ _).trans (Nat.div_le_div_right h.le)
  simp only [toneWithGap, toneValue, pairOf, partsOf, Value.quantity, Quantity.sub, bind,
    Except.bind, pure, Except.pure, ofNumber, Except.mapError, orZero_sub, quantityValue]
  cases htone : tone (.int t.frequency) (.int ↑(t.duration - gap)) (.int rate) style with
  | error fault =>
    intro hfault
    rw [Except.error.inj hfault] at htone
    exact tone_ne_negativeLength _ _ _ _ htone
  | ok sounding =>
    simp only [sampleCount_eq h, sampleCount_eq (sounding_lt h), ← Nat.cast_sub hmono,
      addressable_of_le hroom]
    rw [if_neg (not_lt.mpr (Int.natCast_nonneg _))]
    rintro ⟨⟩

/-- No tone of a sequence asks for a negative number of silent samples. -/
theorem renderTones_ne_negativeLength {tones : List Tone}
    (h : ∀ t ∈ tones, rate * t.duration < 2 ^ 53) (style : Value) (gap : ℤ) :
    renderTones tones (.int rate) style (.int gap) ≠ .error .negativeLength := by
  rcases lt_or_ge gap 0 with hgap | hgap
  · rw [renderTones_of_negative_gap hgap]
    exact fun h => about_ne_negativeLength .negativeGap (by rintro _ ⟨⟩) _ (Except.error.inj h)
  · obtain ⟨gap, rfl⟩ := Int.eq_ofNat_of_zero_le hgap
    rw [renderTones_eq tones _ _ rfl (isNegative_natCast gap)]
    intro hrender
    obtain ⟨_, t, _, rfl, _, hfirst⟩ := mapM_eq_error_iff.mp (map_eq_error_iff.mp hrender)
    exact toneWithGap_ne_negativeLength (h t (by simp)) style gap hfirst

/-! ## Exact numbers of samples -/

theorem samplesIn_eq_floor (rate duration : ℕ) :
    (samplesIn rate duration : ℤ) = ⌊((rate * duration : ℕ) : ℚ) / 1000⌋ := by
  exact_mod_cast (Rat.floor_natCast_div_natCast (rate * duration) 1000).symm

/-- The number of samples is the exact quotient cut off behind the point, although the quotient was
rounded. So it is monotone in the length and in the rate, and what remains of it behind a shorter
tone is not below zero: rendering tones of that length or shorter never comes to a negative number
of silent samples, whatever the gap. -/
theorem sampleCount_exact {rate duration : ℕ} (h : rate * duration < 2 ^ 53) :
    sampleCount (.whole duration) (.whole rate) = .ok ⌊((rate * duration : ℕ) : ℚ) / 1000⌋ ∧
      (∀ slower shorter : ℕ, slower ≤ rate → shorter ≤ duration → ∃ fewer count : ℕ,
        sampleCount (.whole shorter) (.whole slower) = .ok fewer ∧
          sampleCount (.whole duration) (.whole rate) = .ok count ∧ fewer ≤ count) ∧
      (∀ gap : ℕ, ∃ whole sounding : ℤ,
        sampleCount (.whole duration) (.whole rate) = .ok whole ∧
          sampleCount (Quantity.whole (duration - gap)).orZero (.whole rate) = .ok sounding ∧
          0 ≤ whole - sounding) ∧
      ∀ tones : List Tone, (∀ t ∈ tones, t.duration ≤ duration) → ∀ (style : Value) (gap : ℤ),
        renderTones tones (.int rate) style (.int gap) ≠ .error .negativeLength := by
  refine ⟨?_, ?_, ?_, ?_⟩
  · rw [sampleCount_eq h, samplesIn_eq_floor]
  · intro slower shorter hrate hduration
    have hshorter : slower * shorter < 2 ^ 53 := (Nat.mul_le_mul hrate hduration).trans_lt h
    exact ⟨_, _, sampleCount_eq hshorter, sampleCount_eq h, samplesIn_mono_both hrate hduration⟩
  · intro gap
    have hsounding : rate * (duration - gap) < 2 ^ 53 :=
      (Nat.mul_le_mul_left rate (Nat.sub_le _ _)).trans_lt h
    have hmono : samplesIn rate (duration - gap) ≤ samplesIn rate duration :=
      samplesIn_mono (Nat.sub_le _ _)
    refine ⟨_, _, sampleCount_eq h, ?_, sub_nonneg.mpr (Int.ofNat_le.mpr hmono)⟩
    rw [orZero_sub, sampleCount_eq hsounding]
  · intro tones htones style gap
    refine renderTones_ne_negativeLength (fun t ht => ?_) style gap
    exact (Nat.mul_le_mul_left rate (htones t ht)).trans_lt h

/-- One thousandth below a whole number and next to the bound, the quotient is still not rounded up
to the whole number. -/
theorem sampleCount_exact_below_whole :
    1 * 9007199254739999 < 2 ^ 53 ∧
      nearest (9007199254739999 / 1000) ≠ 9007199254739999 / 1000 ∧
      sampleCount (.whole 9007199254739999) (.whole 1) = .ok 9007199254739 := by
  refine ⟨by norm_num, by decide +kernel, ?_⟩
  have hexact := (sampleCount_exact (show 1 * 9007199254739999 < 2 ^ 53 by norm_num)).1
  rw [show ⌊((1 * 9007199254739999 : ℕ) : ℚ) / 1000⌋ = 9007199254739 by
    rw [Int.floor_eq_iff]; norm_num] at hexact
  exact hexact

end Ringtone.Sound
