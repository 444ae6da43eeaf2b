import Ringtone.Proofs.EqualTemperament

/-!
# Octaves of A

The ratio of an A to that of the fourth octave is a power of two, which is had exactly, so that a
product with a tuning of up to 52 bits is exact as well. What is rounded is the sum with the half
that halves are rounded up by. Below the tuning the sum is still on the grid; above, the product is
even, and a half more is rounded back to it.
-/

namespace Ringtone

open Number

namespace Number

/-! ## Half more -/

/-- A half more than a whole number of 53 bits is half-way to the next, and goes to the even one. -/
theorem nearest_add_half_of_even {n : ℤ} (heven : n % 2 = 0) (hlow : 2 ^ 52 ≤ n)
    (hhigh : n < 2 ^ 53) : nearest (n + 1 / 2) = n := by
  have hlow' : (2 ^ 52 : ℚ) ≤ n := by exact_mod_cast hlow
  have hhigh' : (n + 1 : ℚ) ≤ 2 ^ 53 := by exact_mod_cast hhigh
  have hpos : (0 : ℚ) < n + 1 / 2 := by linarith
  have hbinade : binade (n + 1 / 2) = 52 := by
    have hle : (52 : ℕ) ≤ binade (n + 1 / 2 : ℚ) := by
      refine le_binade hpos.ne' ?_
      rw [abs_of_pos hpos, pow2_natCast]
      linarith
    have hlt : binade (n + 1 / 2 : ℚ) < (53 : ℕ) := by
      refine binade_lt hpos.ne' ?_
      rw [abs_of_pos hpos, pow2_natCast]
      linarith
    omega
  have hspacing : spacing (n + 1 / 2) = 1 := by
    rw [spacing, lastPlace, if_neg hpos.ne', hbinade]
    exact zpow_zero 2
  rw [nearest, hspacing, div_one, mul_one, roundEven_half, if_pos heven]

/-- From `2 ^ 53` on, the points of the grid are even, and the next is too far away. -/
theorem nearest_add_half_of_le {n : ℤ} (hgrid : OnGrid n) (hlow : 2 ^ 53 ≤ n) :
    nearest (n + 1 / 2) = n := by
  have hlow' : (2 ^ 53 : ℚ) ≤ n := by exact_mod_cast hlow
  have hbelow : (n : ℚ) ≤ nearest (n + 1 / 2) := le_nearest hgrid (by linarith)
  have hnear := abs_sub_nearest_le_of_onGrid (n + 1 / 2 : ℚ) hgrid
  rw [add_sub_cancel_left, abs_of_pos (by norm_num : (0 : ℚ) < 1 / 2)] at hnear
  have habove := (abs_le.mp hnear).1
  have heven : ∀ {g : ℚ}, OnGrid g → 2 ^ 53 ≤ g → ∃ m : ℤ, g = m * 2 := by
    intro g hg hle
    obtain ⟨m, hm⟩ := hg.eq_mul (e := 1) (Or.inr (by
      rw [abs_of_nonneg (by linarith), show (1 + 52 : ℤ) = (53 : ℕ) from rfl, pow2_natCast]
      exact hle))
    exact ⟨m, hm.trans (by rw [pow2, zpow_one])⟩
  obtain ⟨m, hm⟩ := heven hgrid hlow'
  obtain ⟨k, hk⟩ := heven (onGrid_nearest (n + 1 / 2)) (hlow'.trans hbelow)
  rw [hk, hm] at hbelow habove ⊢
  have hle : m ≤ k := by exact_mod_cast (by linarith : (m : ℚ) ≤ k)
  have hlt : k < m + 1 := by exact_mod_cast (by linarith : (k : ℚ) < m + 1)
  rw [show k = m by omega]

theorem onGrid_add_half {n : ℤ} (h : |2 * n + 1| ≤ 2 ^ 53) : OnGrid (n + 1 / 2) := by
  refine ⟨2 * n + 1, -1, h, by decide, ?_⟩
  rw [show pow2 (-1) = 1 / 2 by norm_num [pow2]]
  push_cast
  ring

/-- A half more is not rounded up to the next whole number, unless that is even and the half is
beyond the grid. -/
theorem floor_nearest_add_half {n : ℤ} (hnonneg : 0 ≤ n) (hgrid : OnGrid n)
    (h : n % 2 = 0 ∨ n < 2 ^ 52) : ⌊nearest (n + 1 / 2)⌋ = ⌊(n + 1 / 2 : ℚ)⌋ := by
  rcases lt_or_ge n (2 ^ 52) with hsmall | hlarge
  · rw [nearest_of_onGrid (onGrid_add_half (by rw [abs_of_nonneg (by omega)]; omega))]
  · have heven := h.resolve_right (not_lt.mpr hlarge)
    have hround : nearest (n + 1 / 2) = n := by
      rcases lt_or_ge n (2 ^ 53) with hbelow | hbeyond
      · exact nearest_add_half_of_even heven hlarge hbelow
      · exact nearest_add_half_of_le hgrid hbeyond
    rw [hround, Int.floor_intCast, Int.floor_intCast_add]
    norm_num

end Number

namespace Pitch

/-! ## The ratios of the A -/

theorem ratioValue_a (octave : Fin 9) :
    (Pitch.mk octave .a).ratioValue = pow2 ((octave : ℕ) - 4) := by
  have hoffset : (Pitch.mk octave .a).offset = 12 * ((octave : ℕ) - 4 : ℤ) := by
    simp only [offset, NoteName.semitone, lowest]
    push_cast
    ring
  have hexponent : (Pitch.mk octave .a).exponent = ((octave : ℕ) - 4 : ℤ) := by
    have hquotient : ((12 * ((octave : ℕ) - 4 : ℤ) : ℤ) : ℚ) / 12 = ((octave : ℕ) - 4 : ℤ) := by
      push_cast
      ring
    rw [exponent, hoffset, hquotient, nearest_of_onGrid (onGrid_intCast ?_)]
    rw [abs_le]
    omega
  refine ratioValue_eq ?_
  show powerOfTwo (Pitch.mk octave .a).exponent = _
  rw [hexponent, powerOfTwo_intCast (by omega) (by omega)]

/-- The product with a tuning is exact. -/
theorem wholeHertz_a (octave : Fin 9) {tuning : ℕ} (hle : tuning ≤ 2 ^ 53) :
    wholeHertz tuning (Pitch.mk octave .a).ratioValue =
      ⌊nearest (tuning * pow2 ((octave : ℕ) - 4) + 1 / 2)⌋ := by
  have hgrid := onGrid_natCast_mul_pow2 (k := (octave : ℕ) - 4) hle (by rw [lowestPlace]; omega)
  rw [wholeHertz, ratioValue_a, nearest_of_onGrid hgrid]

/-! ## Halves of them -/

/-- In the octaves below that of the tuning the sum with the half is on the grid. -/
theorem onGrid_lower_octave {octave tuning : ℕ} (hoctave : octave < 4) (hle : tuning ≤ 2 ^ 52) :
    OnGrid (tuning * pow2 (octave - 4) + 1 / 2) := by
  refine ⟨tuning + 2 ^ (3 - octave), octave - 4, ?_, by rw [lowestPlace]; omega, ?_⟩
  · have hpow : (2 : ℤ) ^ (3 - octave) ≤ 2 ^ 3 := pow_le_pow_right₀ one_le_two (by omega)
    have hpos : (0 : ℤ) < 2 ^ (3 - octave) := by positivity
    rw [abs_of_nonneg (by omega)]
    omega
  · have hhalf : (2 ^ (3 - octave) : ℚ) * pow2 (octave - 4) = 1 / 2 := by
      rw [← pow2_natCast, ← pow2_add, show ((3 - octave : ℕ) : ℤ) + (octave - 4) = -1 by omega]
      norm_num [pow2]
    push_cast
    rw [add_mul, hhalf]

/-- The octaves of A round half up, all of them. -/
theorem floor_nearest_octave {octave tuning : ℕ} (hoctave : octave ≤ 8) (hle : tuning ≤ 2 ^ 52) :
    ⌊nearest (tuning * pow2 (octave - 4) + 1 / 2)⌋ = ⌊tuning * pow2 (octave - 4) + 1 / 2⌋ := by
  rcases lt_or_ge octave 4 with hlower | hhigher
  · rw [nearest_of_onGrid (onGrid_lower_octave hlower hle)]
  · obtain ⟨k, rfl⟩ := Nat.exists_eq_add_of_le hhigher
    have hproduct : tuning * pow2 ((4 + k : ℕ) - 4) = ((tuning * 2 ^ k : ℤ) : ℚ) := by
      rw [show ((4 + k : ℕ) : ℤ) - 4 = k by omega, pow2_natCast]
      push_cast
      rfl
    have hgrid : OnGrid ((tuning * 2 ^ k : ℤ) : ℚ) := by
      rw [← hproduct]
      exact onGrid_natCast_mul_pow2 (hle.trans (by norm_num)) (by rw [lowestPlace]; omega)
    rw [hproduct]
    refine floor_nearest_add_half (by positivity) hgrid ?_
    -- from an octave above on, the product is even
    cases k with
    | zero =>
      rw [pow_zero, mul_one]
      omega
    | succ k =>
      rw [pow_succ, ← mul_assoc]
      exact Or.inl (Int.mul_emod_left _ _)

/-- Sixteenths of the tuning hold the octaves of A. -/
theorem floor_octave (octave tuning : ℕ) :
    ⌊tuning * pow2 (octave - 4) + 1 / 2⌋ = ((tuning * 2 ^ octave + 8) / 16 : ℕ) := by
  have hsixteenths : tuning * pow2 (octave - 4) + 1 / 2 =
      ((tuning * 2 ^ octave + 8 : ℕ) : ℚ) / (16 : ℕ) := by
    rw [sub_eq_add_neg, pow2_add, pow2_natCast, show pow2 (-4) = 1 / 16 by norm_num [pow2]]
    push_cast
    ring
  rw [hsixteenths, Rat.floor_natCast_div_natCast]
  norm_cast

/-- The frequency of an A is the tuning, moved by octaves and rounded half up, for tunings of up to
52 bits. -/
theorem frequencyOf_a (octave : Fin 9) {tuning : ℕ} (hpos : 1 ≤ tuning) (hle : tuning ≤ 2 ^ 52) :
    frequencyOf (.ofChars ['a', Nat.digitChar octave]) (.int tuning) =
        .ok ((tuning * 2 ^ (octave : ℕ) + 8) / 16 : ℕ) ∧
      ((tuning * 2 ^ (octave : ℕ) + 8) / 16 : ℕ) =
        ⌊(tuning : ℚ) * 2 ^ ((octave : ℕ) - 4 : ℤ) + 1 / 2⌋ := by
  have hwithin : ¬ (Pitch.mk octave .a).Overflows tuning :=
    not_overflows _ (hle.trans (pow_le_pow_right₀ one_le_two (by norm_num)))
  have hbits : tuning ≤ 2 ^ 53 := hle.trans (pow_le_pow_right₀ one_le_two (by norm_num))
  have hfrequency := (Pitch.mk octave .a).frequencyOf_of_within hpos hwithin
  rw [hertz_eq, nearest_natCast hbits, wholeHertz_a octave hbits,
    floor_nearest_octave (by omega) hle, floor_octave] at hfrequency
  exact ⟨hfrequency, (floor_octave octave tuning).symm⟩

/-- Under the greatest odd tuning of 52 bits the A below is half-way between two whole numbers. -/
theorem frequencyOf_a_half_way :
    1 ≤ 4503599627370495 ∧ 4503599627370495 ≤ 2 ^ 52 ∧
      frequencyOf (.ofChars ['a', '3']) (.int 4503599627370495) = .ok 2251799813685248 ∧
      (2251799813685248 : ℤ) = ⌊(4503599627370495 : ℚ) * 2 ^ (-1 : ℤ) + 1 / 2⌋ := by
  have hpos : 1 ≤ 4503599627370495 := by norm_num
  have hle : 4503599627370495 ≤ 2 ^ 52 := by norm_num
  obtain ⟨hfrequency, hround⟩ := frequencyOf_a 3 hpos hle
  exact ⟨hpos, hle, hfrequency, hround⟩

end Pitch

end Ringtone
