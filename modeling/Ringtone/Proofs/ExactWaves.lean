import Mathlib.Analysis.SpecialFunctions.Trigonometric.Basic
import Ringtone.Proofs.Ramps

/-!
# Waves in exact arithmetic

The samples are computed with any kind of number, the real ones among them. With these the
operations are exact, and what a wave stands for can be bounded without a word about rounding: a
fade only makes a sine wave quieter, a square wave takes the values of a sign, and the partial tones
of a bell together are never louder than the sum of their shares. Of the sine and the exponential
only their own bounds count, so that both may be any functions with these bounds.
-/

namespace Ringtone.Sound

/-! ## Exact numbers -/

/-- The functions that samples are computed with, and the ratio of a circle's circumference to its
diameter. -/
structure Functions where
  /-- The ratio. -/
  pi : ℝ
  /-- What is taken for the sine. -/
  sin : ℝ → ℝ
  /-- What is taken for the exponential. -/
  exp : ℝ → ℝ

namespace Functions

/-- The sine and the exponential of analysis. -/
noncomputable def real : Functions := ⟨Real.pi, Real.sin, Real.exp⟩

/-- Functions with the bounds of sine and exponential. -/
structure Bounded (f : Functions) : Prop where
  abs_sin_le : ∀ x, |f.sin x| ≤ 1
  exp_pos : ∀ x ≤ 0, 0 < f.exp x
  exp_le_one : ∀ x ≤ 0, f.exp x ≤ 1

theorem bounded_real : real.Bounded where
  abs_sin_le := Real.abs_sin_le_one
  exp_pos x _ := Real.exp_pos x
  exp_le_one _ := Real.exp_le_one_iff.mpr

/-- The real numbers as numbers that samples are computed with. -/
@[reducible]
noncomputable def numbers (f : Functions) : SampleNumber ℝ where
  ofNat n := n
  decimal digits places := digits / 10 ^ places
  pi := f.pi
  sin := f.sin
  exp := f.exp
  sign x := if 0 < x then 1 else if x < 0 then -1 else 0
  clamp x := if x < -1 then -1 else if 1 < x then 1 else x

/-- The samples of a tone in exact arithmetic, with the factors of a fade of so many steps. -/
noncomputable def wave (f : Functions) (style : Style) (frequency rate : ℝ) (count ramp : ℕ) :
    List ℝ :=
  @Sound.wave ℝ f.numbers style frequency rate count (@envelope ℝ f.numbers count ramp)

/-- A sample brought between minus one and one. -/
noncomputable def clamp (f : Functions) : ℝ → ℝ := f.numbers.clamp

end Functions

variable {f : Functions} {frequency rate progress : ℝ} {count ramp i : ℕ}

theorem decimal_eq (digits places : ℕ) :
    f.numbers.decimal digits places = (digits : ℝ) / 10 ^ places :=
  rfl

theorem clamp_of_abs_le {x : ℝ} (h : |x| ≤ 1) : f.clamp x = x := by
  obtain ⟨hlow, hhigh⟩ := abs_le.mp h
  show (if x < -1 then -1 else if 1 < x then 1 else x) = x
  rw [if_neg (not_lt.mpr hlow), if_neg (not_lt.mpr hhigh)]

theorem abs_mul_le_of_le_one {x y bound : ℝ} (hx : |x| ≤ bound) (hy : |y| ≤ 1) :
    |x * y| ≤ bound := by
  rw [abs_mul]
  exact (mul_le_of_le_one_right (abs_nonneg x) hy).trans hx

theorem abs_le_of_mem_unit {x : ℝ} (h : 0 ≤ x ∧ x ≤ 1) : |x| ≤ 1 :=
  (abs_of_nonneg h.1).trans_le h.2

/-! ## Sine waves -/

theorem factor_eq (count ramp i : ℕ) :
    @factor ℝ f.numbers count ramp i =
      if i < ramp then (i : ℝ) / ramp
      else if count - ramp ≤ i then ((count - 1 - i : ℕ) : ℝ) / ramp else 1 := by
  show (if i < ramp then (i : ℝ) / ramp else if count - ramp ≤ i then
    ((count - 1 - i : ℕ) : ℝ) / ramp else ((1 : ℕ) : ℝ) / 10 ^ 0) = _
  rw [Nat.cast_one, pow_zero, div_one]

/-- A step of a ramp is a part of the whole. -/
theorem div_mem_unit {step whole : ℕ} (h : step ≤ whole) :
    0 ≤ (step : ℝ) / whole ∧ (step : ℝ) / whole ≤ 1 :=
  ⟨by positivity, div_le_one_of_le₀ (by exact_mod_cast h) (Nat.cast_nonneg _)⟩

theorem factor_mem_unit (count ramp i : ℕ) :
    0 ≤ @factor ℝ f.numbers count ramp i ∧ @factor ℝ f.numbers count ramp i ≤ 1 := by
  rw [factor_eq]
  split_ifs with hrise hfall
  · exact div_mem_unit hrise.le
  · exact div_mem_unit (by omega)
  · exact ⟨zero_le_one, le_rfl⟩

theorem abs_fadedSample_le (hf : f.Bounded) :
    |@factor ℝ f.numbers count ramp i * @sineSample ℝ f.numbers frequency rate i| ≤ 1 :=
  abs_mul_le_of_le_one (abs_le_of_mem_unit (factor_mem_unit count ramp i)) (hf.abs_sin_le _)

/-! ## Square waves -/

theorem abs_sign_le (x : ℝ) : |f.numbers.sign x| ≤ 1 := by
  show |if 0 < x then (1 : ℝ) else if x < 0 then -1 else 0| ≤ 1
  split_ifs <;> norm_num

theorem abs_squareSample_le : |@squareSample ℝ f.numbers frequency rate i| ≤ 1 / 2 := by
  have hhalf : |f.numbers.decimal 5 1| ≤ 1 / 2 := by
    rw [decimal_eq]
    norm_num [abs_of_pos]
  exact abs_mul_le_of_le_one hhalf (abs_sign_le _)

/-! ## Bells -/

/-- A partial tone that dies away is not louder than at its beginning. -/
theorem Harmonic.abs_sample_le (hf : f.Bounded) {harmonic : Harmonic ℝ}
    (hshare : 0 ≤ harmonic.share) (hdecay : 0 ≤ harmonic.decay) (hprogress : 0 ≤ progress) :
    |@Harmonic.sample ℝ f.numbers harmonic frequency rate progress i| ≤ harmonic.share := by
  have hthree : (0 : ℝ) ≤ f.numbers.decimal 3 0 := by
    rw [decimal_eq]
    positivity
  have hfalling : -progress * harmonic.decay * f.numbers.decimal 3 0 ≤ 0 := by
    have := mul_nonneg (mul_nonneg hprogress hdecay) hthree
    linarith
  have hloudness : |f.exp (-progress * harmonic.decay * f.numbers.decimal 3 0)| ≤ 1 :=
    abs_le_of_mem_unit ⟨(hf.exp_pos _ hfalling).le, hf.exp_le_one _ hfalling⟩
  have hshare : |harmonic.share| ≤ harmonic.share := (abs_of_nonneg hshare).le
  exact abs_mul_le_of_le_one (abs_mul_le_of_le_one hshare hloudness) (hf.abs_sin_le _)

/-- Partial tones added one by one stay below the sum of their shares. -/
theorem abs_foldl_sample_le (hf : f.Bounded) (frequency rate : ℝ) (i : ℕ)
    (hprogress : 0 ≤ progress) :
    ∀ (harmonics : List (Harmonic ℝ)) (sum : ℝ),
      (∀ harmonic ∈ harmonics, 0 ≤ harmonic.share ∧ 0 ≤ harmonic.decay) →
      |harmonics.foldl (fun sum harmonic =>
          sum + @Harmonic.sample ℝ f.numbers harmonic frequency rate progress i) sum| ≤
        |sum| + (harmonics.map Harmonic.share).sum := by
  intro harmonics
  induction harmonics with
  | nil => intro sum _; simp
  | cons harmonic harmonics ih =>
    intro sum hall
    obtain ⟨hshare, hdecay⟩ := hall harmonic List.mem_cons_self
    rw [List.foldl_cons, List.map_cons, List.sum_cons, ← add_assoc]
    refine (ih _ fun other hother => hall other (List.mem_cons_of_mem _ hother)).trans ?_
    refine add_le_add_left ((abs_add_le _ _).trans (add_le_add_right ?_ _)) _
    exact Harmonic.abs_sample_le hf hshare hdecay hprogress

theorem harmonics_eq : @harmonics ℝ f.numbers =
    [⟨1, 1, 1⟩, ⟨2, 1 / 2, 3 / 2⟩, ⟨3, 1 / 4, 2⟩, ⟨4, 3 / 20, 5 / 2⟩, ⟨5, 1 / 10, 3⟩] := by
  unfold harmonics
  simp only [decimal_eq]
  norm_num

theorem strike_eq (progress : ℝ) : @strike ℝ f.numbers progress =
    f.exp (-progress * 4) * (1 - f.exp (-progress * 50)) := by
  show f.exp (-progress * ((4 : ℕ) / 10 ^ 0)) *
    (((1 : ℕ) / 10 ^ 0 : ℝ) - f.exp (-progress * ((50 : ℕ) / 10 ^ 0))) = _
  simp only [pow_zero, div_one, Nat.cast_one, Nat.cast_ofNat]

/-- The loudness of the bell is a part of full scale. -/
theorem strike_mem_unit (hf : f.Bounded) (hprogress : 0 ≤ progress) :
    0 ≤ @strike ℝ f.numbers progress ∧ @strike ℝ f.numbers progress ≤ 1 := by
  have hfalling : -progress * 4 ≤ 0 := by linarith
  have hstruck : -progress * 50 ≤ 0 := by linarith
  have hpos := hf.exp_pos _ hfalling
  have hle := hf.exp_le_one _ hfalling
  have hrest : 0 ≤ 1 - f.exp (-progress * 50) := sub_nonneg.mpr (hf.exp_le_one _ hstruck)
  have hbelow : 1 - f.exp (-progress * 50) ≤ 1 := sub_le_self _ (hf.exp_pos _ hstruck).le
  rw [strike_eq]
  exact ⟨mul_nonneg hpos.le hrest, mul_le_one₀ hle hrest hbelow⟩

/-- The partial tones of the bell at a part of its length, added together. -/
noncomputable def Functions.partials (f : Functions) (frequency rate progress : ℝ) (i : ℕ) : ℝ :=
  (@harmonics ℝ f.numbers).foldl (fun sum harmonic =>
    sum + @Harmonic.sample ℝ f.numbers harmonic frequency rate progress i) 0

theorem abs_partials_le (hf : f.Bounded) (frequency rate : ℝ) (i : ℕ) (hprogress : 0 ≤ progress) :
    |f.partials frequency rate progress i| ≤ 2 := by
  have hall : ∀ harmonic ∈ @harmonics ℝ f.numbers, 0 ≤ harmonic.share ∧ 0 ≤ harmonic.decay := by
    rw [harmonics_eq]
    norm_num
  have hshares : ((@harmonics ℝ f.numbers).map Harmonic.share).sum = 2 := by
    rw [harmonics_eq]
    norm_num
  have hsum := abs_foldl_sample_le hf frequency rate i hprogress _ 0 hall
  rwa [hshares, abs_zero, zero_add] at hsum

theorem bellSample_eq (frequency rate : ℝ) (count i : ℕ) :
    @bellSample ℝ f.numbers frequency rate count i =
      2 / 5 * @strike ℝ f.numbers (i / count) * f.partials frequency rate (i / count) i := by
  have hzero : f.numbers.decimal 0 0 = 0 := by
    rw [decimal_eq]
    norm_num
  have hfactor : f.numbers.decimal 4 1 = 2 / 5 := by
    rw [decimal_eq]
    norm_num
  rw [Functions.partials, ← hzero, ← hfactor]
  rfl

theorem abs_bellSample_le (hf : f.Bounded) :
    |@bellSample ℝ f.numbers frequency rate count i| ≤ 4 / 5 := by
  have hprogress : (0 : ℝ) ≤ i / count := by positivity
  have hpartials := abs_partials_le hf frequency rate i hprogress
  have hstrike := abs_le_of_mem_unit (strike_mem_unit hf hprogress)
  rw [bellSample_eq, mul_right_comm]
  refine abs_mul_le_of_le_one ?_ hstrike
  rw [abs_mul, abs_of_pos (by norm_num : (0 : ℝ) < 2 / 5)]
  linarith

/-! ## Tones -/

/-- The greatest value of a style's samples. -/
def Style.peak : Style → ℚ
  | .sine => 1
  | .square => 1 / 2
  | .bell => 4 / 5

theorem Style.peak_le_one (style : Style) : style.peak ≤ 1 := by
  cases style <;> norm_num [peak]

@[simp]
theorem length_exactWave (style : Style) :
    (f.wave style frequency rate count ramp).length = count :=
  @length_wave ℝ f.numbers style frequency rate count ramp

/-- The samples of a style stay within its peak. -/
theorem abs_le_peak (hf : f.Bounded) {style : Style} {x : ℝ}
    (hx : x ∈ f.wave style frequency rate count ramp) : |x| ≤ style.peak := by
  unfold Functions.wave at hx
  cases style with
  | sine =>
    rw [@wave_sine_eq_map ℝ f.numbers] at hx
    obtain ⟨i, -, rfl⟩ := List.mem_map.mp hx
    exact (abs_fadedSample_le hf).trans_eq (by norm_num [Style.peak])
  | square =>
    obtain ⟨i, -, rfl⟩ := List.mem_map.mp hx
    exact abs_squareSample_le.trans_eq (by norm_num [Style.peak])
  | bell =>
    obtain ⟨i, -, rfl⟩ := List.mem_map.mp hx
    exact (abs_bellSample_le hf).trans_eq (by norm_num [Style.peak])

end Ringtone.Sound
