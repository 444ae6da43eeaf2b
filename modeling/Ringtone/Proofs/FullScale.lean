import Ringtone.Proofs.ExactWaves
import Ringtone.Proofs.Timing

/-!
# Tones within full scale

All decisions about a tone, and all its faults, come before its samples: they leave a shape, from
which the wave is computed in one kind of number or another. The machine's floats give the samples.
In exact arithmetic the same shapes never leave the peak of their style, so that bringing a whole
rendering to full scale changes nothing.
-/

namespace Ringtone.Sound

open Number

/-! ## The shape of a tone -/

/-- What the samples of a tone are computed from. -/
structure Shape where
  style : Style
  frequency : Binary64
  rate : Binary64
  count : ℕ
  ramp : ℕ
deriving DecidableEq

/-- The number of steps of a sine wave's fade. -/
def fadeRamp (count : ℕ) (rate : Quantity) : Except Fault ℕ := do
  stepsOf count (← ofNumber (fadeLength count rate))

/-- The factors of a fade can be had as far as it has a number of steps, and are those of that
number. -/
theorem fadeEnvelope_eq (count : ℕ) (rate : Quantity) :
    fadeEnvelope count rate = envelope count <$> fadeRamp count rate := by
  rw [fadeEnvelope, fadeRamp, map_bind]
  cases hlength : fadeLength count rate with
  | error fault => rfl
  | ok length => exact fade_eq_stepsOf (fadeLength_le hlength)

/-- The ramp of a style, of which only a sine wave has any. -/
def rampFor (style : Style) (count : ℕ) (rate : Quantity) : Except Fault ℕ :=
  match style with
  | .sine => fadeRamp count rate
  | .square | .bell => .ok 0

/-- The shape of a tone. A bell of no samples does not look at its frequency. -/
def shapeOf (frequency duration rate style : Value) : Except Fault Shape := do
  let style ← Style.ofValue style
  let rate ← rate.quantity
  let counted ← ofNumber (sampleCount (← duration.quantity) rate)
  let count := (← addressable .lengthTooLarge counted).toNat
  let realRate ← ofNumber rate.toReal
  if style = .bell ∧ count = 0 then return ⟨style, .finite 0, realRate, 0, 0⟩
  let ramp ← rampFor style count rate
  let realFrequency ← ofNumber (← frequency.quantity).toReal
  return ⟨style, realFrequency, realRate, count, ramp⟩

section

variable {α : Type} [SampleNumber α]

/-- The samples of a shape, in the kind of number that binary64 numbers are read as. -/
def Shape.samples (read : Binary64 → α) (shape : Shape) : List α :=
  wave shape.style (read shape.frequency) (read shape.rate) shape.count
    (envelope shape.count shape.ramp)

theorem Shape.length_samples (read : Binary64 → α) (shape : Shape) :
    (shape.samples read).length = shape.count :=
  length_wave _ _ _ _ _

end

/-- The samples of a tone are those of its shape. -/
theorem tone_eq_shapeOf (frequency duration rate style : Value) :
    tone frequency duration rate style =
      Shape.samples Binary64.toFloat <$> shapeOf frequency duration rate style := by
  simp only [tone, shapeOf, map_bind]
  refine bind_congr fun style => bind_congr fun rate => bind_congr fun duration => ?_
  refine bind_congr fun counted => bind_congr fun count => bind_congr fun realRate => ?_
  by_cases hempty : style = .bell ∧ count.toNat = 0
  · rw [if_pos hempty, if_pos hempty, map_pure, hempty.1]
    rfl
  · rw [if_neg hempty, if_neg hempty]
    cases style with
    | sine => simp only [rampFor, fadeEnvelope_eq, bind_map_left, map_bind, map_pure]; rfl
    | square | bell => simp only [map_bind, map_pure]; rfl

/-- A shape has the style of its name, and the ramp of that style for its number of samples. -/
theorem style_and_ramp_of_shapeOf {frequency duration rate style : Value} {shape : Shape}
    (h : shapeOf frequency duration rate style = .ok shape) :
    Style.ofValue style = .ok shape.style ∧ ∃ quantity, rate.quantity = .ok quantity ∧
      rampFor shape.style shape.count quantity = .ok shape.ramp := by
  obtain ⟨named, hnamed, h⟩ := bind_eq_ok_iff.mp h
  obtain ⟨quantity, hquantity, h⟩ := bind_eq_ok_iff.mp h
  obtain ⟨length, -, h⟩ := bind_eq_ok_iff.mp h
  obtain ⟨counted, -, h⟩ := bind_eq_ok_iff.mp h
  obtain ⟨count, -, h⟩ := bind_eq_ok_iff.mp h
  obtain ⟨realRate, -, h⟩ := bind_eq_ok_iff.mp h
  split_ifs at h with hempty
  · obtain ⟨rfl, -⟩ := hempty
    cases h
    exact ⟨hnamed, quantity, hquantity, rfl⟩
  · obtain ⟨ramp, hramp, h⟩ := bind_eq_ok_iff.mp h
    obtain ⟨frequency, -, h⟩ := bind_eq_ok_iff.mp h
    obtain ⟨realFrequency, -, h⟩ := bind_eq_ok_iff.mp h
    cases h
    exact ⟨hnamed, quantity, hquantity, hramp⟩

/-! ## Tones behind each other -/

/-- The shape of a tone and the number of silent samples behind it. -/
structure Stretch where
  shape : Shape
  rest : ℕ

/-- The stretch of a pair of frequency and duration. -/
def stretchOf (rate style : Value) (gap : Quantity) (pair : Value) : Except Fault Stretch := do
  let (frequency, duration) ← pairOf pair
  let whole ← duration.quantity
  let sounding := (← ofNumber (whole.sub gap)).orZero
  let shape ← shapeOf frequency (quantityValue sounding) rate style
  let rate ← rate.quantity
  let rest := (← ofNumber (sampleCount whole rate)) - (← ofNumber (sampleCount sounding rate))
  let rest ← addressable .silenceTooLarge rest
  if rest < 0 then throw .negativeLength
  return ⟨shape, rest.toNat⟩

/-- The stretches of a sequence of pairs. -/
def layOut (pairs rate style gap : Value) : Except Fault (List Stretch) := do
  let quantity ← gap.quantity
  if quantity.isNegative then throw (.about .negativeGap gap)
  (← partsOf pairs).mapM (stretchOf rate style quantity)

section

variable {α : Type} [SampleNumber α]

/-- The samples of a stretch. -/
def Stretch.samples (read : Binary64 → α) (stretch : Stretch) : List α :=
  stretch.shape.samples read ++ List.replicate stretch.rest (SampleNumber.ofNat 0)

theorem Stretch.length_samples (read : Binary64 → α) (stretch : Stretch) :
    (stretch.samples read).length = stretch.shape.count + stretch.rest := by
  rw [samples, List.length_append, Shape.length_samples, List.length_replicate]

end

theorem toneWithGap_eq_stretchOf (rate style : Value) (gap : Quantity) (pair : Value) :
    toneWithGap rate style gap pair =
      Stretch.samples Binary64.toFloat <$> stretchOf rate style gap pair := by
  simp only [toneWithGap, stretchOf, tone_eq_shapeOf, map_bind, bind_map_left]
  refine bind_congr fun parts => bind_congr fun whole => bind_congr fun sounding => ?_
  refine bind_congr fun shape => bind_congr fun rate => bind_congr fun wholeCount => ?_
  refine bind_congr fun soundingCount => bind_congr fun rest => ?_
  split_ifs <;> rfl

/-- Results that are each changed behind a step that may fail are the changed results. -/
theorem mapM_map_eq {α β γ ε : Type} (change : β → γ) (next : α → Except ε β) (l : List α) :
    (l.mapM fun a => change <$> next a) = List.map change <$> l.mapM next := by
  induction l with
  | nil => rfl
  | cons a l ih =>
    rw [List.mapM_cons, List.mapM_cons, ih]
    simp only [map_bind, bind_map_left, map_pure, List.map_cons]

theorem mapM_toneWithGap (rate style : Value) (gap : Quantity) (pairs : List Value) :
    pairs.mapM (toneWithGap rate style gap) =
      List.map (Stretch.samples Binary64.toFloat) <$> pairs.mapM (stretchOf rate style gap) := by
  rw [← mapM_map_eq]
  exact congrArg pairs.mapM (funext (toneWithGap_eq_stretchOf rate style gap))

/-- A rendering is that of its stretches, brought to full scale. -/
theorem render_eq_layOut (pairs rate style gap : Value) :
    render pairs rate style gap =
      (fun stretches => (stretches.flatMap (Stretch.samples Binary64.toFloat)).map
        SampleNumber.clamp) <$> layOut pairs rate style gap := by
  simp only [render, layOut, map_bind]
  refine bind_congr fun quantity => ?_
  split_ifs
  · rfl
  · simp only [mapM_toneWithGap, map_bind, bind_map_left, List.flatMap_def]
    rfl

/-! ## Exact samples -/

/-- A binary64 number in exact arithmetic. -/
noncomputable def exactValue (x : Binary64) : ℝ := (x.toRat?.getD 0 : ℚ)

/-- The samples of a shape in exact arithmetic. -/
noncomputable def Shape.exactSamples (f : Functions) (shape : Shape) : List ℝ :=
  @Shape.samples ℝ f.numbers exactValue shape

/-- The samples of a stretch in exact arithmetic. -/
noncomputable def Stretch.exactSamples (f : Functions) (stretch : Stretch) : List ℝ :=
  @Stretch.samples ℝ f.numbers exactValue stretch

variable {f : Functions}

theorem Shape.length_exactSamples (f : Functions) (shape : Shape) :
    (shape.exactSamples f).length = shape.count :=
  length_exactWave shape.style

theorem Stretch.length_exactSamples (f : Functions) (stretch : Stretch) :
    (stretch.exactSamples f).length = stretch.shape.count + stretch.rest :=
  @Stretch.length_samples ℝ f.numbers exactValue stretch

theorem Shape.abs_exactSamples_le (hf : f.Bounded) {shape : Shape} {x : ℝ}
    (hx : x ∈ shape.exactSamples f) : |x| ≤ shape.style.peak :=
  abs_le_peak hf hx

theorem Stretch.abs_exactSamples_le (hf : f.Bounded) {stretch : Stretch} {x : ℝ}
    (hx : x ∈ stretch.exactSamples f) : |x| ≤ 1 := by
  rcases List.mem_append.mp hx with hsounding | hsilent
  · refine (stretch.shape.abs_exactSamples_le hf hsounding).trans ?_
    exact_mod_cast stretch.shape.style.peak_le_one
  · rw [List.eq_of_mem_replicate hsilent]
    show |((0 : ℕ) : ℝ)| ≤ 1
    norm_num

/-- Exact samples need not be brought to full scale. -/
theorem map_clamp_exactSamples (hf : f.Bounded) (stretches : List Stretch) :
    (stretches.flatMap (Stretch.exactSamples f)).map f.clamp =
      stretches.flatMap (Stretch.exactSamples f) := by
  refine (List.map_congr_left fun x hx => ?_).trans (List.map_id _)
  obtain ⟨stretch, -, hx⟩ := List.mem_flatMap.mp hx
  exact clamp_of_abs_le (stretch.abs_exactSamples_le hf hx)

/-- Every style stays within its peak and so within full scale, whatever the frequency, the rate and
the number of samples: in exact arithmetic, with any functions that have the bounds of sine and
exponential, the samples that a tone is computed as do, and bringing a rendering to full scale
changes none of them. -/
theorem waves_within_full_scale (hf : f.Bounded) :
    (∀ (style : Style) (frequency rate : ℝ) (count ramp : ℕ),
      ∀ x ∈ f.wave style frequency rate count ramp, |x| ≤ style.peak ∧ |x| ≤ 1) ∧
    (∀ (frequency duration rate style : Value) (samples : List Float),
      tone frequency duration rate style = .ok samples → ∃ shape,
        shapeOf frequency duration rate style = .ok shape ∧
        Style.ofValue style = .ok shape.style ∧
        samples = shape.samples Binary64.toFloat ∧
        (shape.exactSamples f).length = samples.length ∧
        ∀ x ∈ shape.exactSamples f, |x| ≤ shape.style.peak) ∧
    ∀ (pairs rate style gap : Value) (samples : List Float),
      render pairs rate style gap = .ok samples → ∃ stretches,
        layOut pairs rate style gap = .ok stretches ∧
        samples =
          (stretches.flatMap (Stretch.samples Binary64.toFloat)).map SampleNumber.clamp ∧
        (stretches.flatMap (Stretch.exactSamples f)).length = samples.length ∧
        (stretches.flatMap (Stretch.exactSamples f)).map f.clamp =
          stretches.flatMap (Stretch.exactSamples f) := by
  refine ⟨?_, ?_, ?_⟩
  · intro style frequency rate count ramp x hx
    have hpeak := abs_le_peak hf hx
    exact ⟨hpeak, hpeak.trans (by exact_mod_cast style.peak_le_one)⟩
  · intro frequency duration rate style samples htone
    rw [tone_eq_shapeOf] at htone
    obtain ⟨shape, hshape, rfl⟩ := map_eq_ok_iff.mp htone
    refine ⟨shape, hshape, (style_and_ramp_of_shapeOf hshape).1, rfl, ?_, ?_⟩
    · rw [Shape.length_samples, Shape.length_exactSamples]
    · exact fun x hx => shape.abs_exactSamples_le hf hx
  · intro pairs rate style gap samples hrender
    rw [render_eq_layOut] at hrender
    obtain ⟨stretches, hstretches, rfl⟩ := map_eq_ok_iff.mp hrender
    refine ⟨stretches, hstretches, rfl, ?_, map_clamp_exactSamples hf stretches⟩
    rw [List.length_map, List.length_flatMap, List.length_flatMap]
    simp only [Stretch.length_exactSamples, Stretch.length_samples]

/-- A bell of a quarter of a second. -/
theorem waves_within_full_scale_bell :
    Functions.real.Bounded ∧
      shapeOf (.int 440) (.int 250) (.int 8000) (.ofString "bell") =
        .ok ⟨.bell, .finite 440, .finite 8000, 2000, 0⟩ ∧
      ∀ x ∈ Functions.real.wave .bell 440 8000 2000 0, |x| ≤ 4 / 5 := by
  refine ⟨Functions.bounded_real, eq_ok_of_toOption (by decide +kernel), ?_⟩
  intro x hx
  obtain ⟨hpeak, -⟩ := (waves_within_full_scale Functions.bounded_real).1 _ _ _ _ _ x hx
  exact hpeak.trans_eq (by norm_num [Style.peak])

end Ringtone.Sound
