import Ringtone.Proofs.LengthOutcomes

/-!
# Milliseconds that are lost

A length that is no whole number is always cut off to its whole part, since the error of the way to
it is too small to reach the next whole number. A length that is a whole number loses a millisecond
where the way ends just below it. Powers of two in fraction and tempo only move the point, so this
is decided by the odd parts, of which there are few: a third at a tempo of 25, and its like, is the
only length that loses.
-/

namespace Ringtone

open Number

/-! ## Powers of two -/

/-- The milliseconds of a note before they are cut off, from its fraction and the tempo. -/
def gridLength (parts beats : ℚ) : ℚ :=
  nearest (nearest (nearest (secondTempo / beats) / parts) * 1000)

theorem Fraction.millisecondsOnGrid_eq (fraction : Fraction) (tempo : Tempo) :
    fraction.millisecondsOnGrid tempo = gridLength (nearest fraction.parts) (nearest tempo.beats) :=
  rfl

/-- A number that is not too small is rounded like its multiple by a power of two. -/
theorem nearest_scaled {x : ℚ} {k : ℤ} (hx : pow2 (-100) ≤ x) (hk : -100 ≤ k) :
    nearest (x * pow2 k) = nearest x * pow2 k := by
  have hnormal : leastNormal ≤ pow2 (-100) * pow2 k := by
    rw [leastNormal, lowestPlace, ← pow2_add]
    exact pow2_le.mpr (by omega)
  have hscaled : pow2 (-100) * pow2 k ≤ x * pow2 k :=
    mul_le_mul_of_nonneg_right hx (pow2_pos k).le
  refine nearest_mul_pow2 ?_ ?_
  · have hleast : leastNormal ≤ pow2 (-100) := pow2_le.mpr (by decide)
    exact (hleast.trans hx).trans (le_abs_self x)
  · exact (hnormal.trans hscaled).trans (le_abs_self _)

theorem pow2_le_div {x y : ℚ} {k n : ℤ} (hx : pow2 k ≤ x) (hy : 1 ≤ y) (hle : y ≤ pow2 n) :
    pow2 (k - n) ≤ x / y := by
  rw [le_div_iff₀ (by linarith)]
  calc pow2 (k - n) * y ≤ pow2 (k - n) * pow2 n := mul_le_mul_of_nonneg_left hle (pow2_pos _).le
    _ = pow2 k := by rw [← pow2_add, sub_add_cancel]
    _ ≤ x := hx

theorem div_mul_pow2 (x y : ℚ) (k : ℤ) : x / (y * pow2 k) = x / y * pow2 (-k) := by
  rw [← div_div, pow2, pow2, zpow_neg, div_eq_mul_inv]

/-- A multiple of the fraction and of the tempo by powers of two divides the length by them, to the
last bit. -/
theorem gridLength_scaled {parts beats : ℚ} {i j : ℤ} (hparts : 1 ≤ parts) (hbeats : 1 ≤ beats)
    (hpartsLe : parts ≤ pow2 20) (hbeatsLe : beats ≤ pow2 20) (hi : 0 ≤ i ∧ i ≤ 20)
    (hj : 0 ≤ j ∧ j ≤ 20) :
    gridLength (parts * pow2 i) (beats * pow2 j) = gridLength parts beats * pow2 (-(i + j)) := by
  have hkeeps : ∀ {k : ℤ} {x : ℚ}, -100 ≤ k → pow2 k ≤ x → pow2 k ≤ nearest x :=
    fun hk hx => le_nearest (onGrid_pow2 (by rw [lowestPlace]; omega)) hx
  have hlarge : ∀ {k : ℤ} {x : ℚ}, -100 ≤ k → pow2 k ≤ x → pow2 (-100) ≤ x :=
    fun hk hx => (pow2_le.mpr hk).trans hx
  -- none of the three numbers that are rounded is below `2 ^ -40`
  have hsecond : pow2 0 ≤ secondTempo := by norm_num [pow2, secondTempo]
  have hwhole := pow2_le_div hsecond hbeats hbeatsLe
  have hnote := pow2_le_div (hkeeps (by norm_num) hwhole) hparts hpartsLe
  have hlength : pow2 (0 - 20 - 20) ≤ nearest (nearest (secondTempo / beats) / parts) * 1000 := by
    have hseconds := hkeeps (by norm_num) hnote
    have hpos := (pow2_pos (0 - 20 - 20)).trans_le hseconds
    linarith
  have hwholeScaled : nearest (secondTempo / (beats * pow2 j)) =
      nearest (secondTempo / beats) * pow2 (-j) := by
    rw [div_mul_pow2, nearest_scaled (hlarge (by norm_num) hwhole) (by omega)]
  have hnoteScaled : nearest (nearest (secondTempo / beats) * pow2 (-j) / (parts * pow2 i)) =
      nearest (nearest (secondTempo / beats) / parts) * pow2 (-(i + j)) := by
    rw [div_mul_pow2, mul_div_right_comm, mul_assoc, ← pow2_add,
      show -j + -i = -(i + j) by ring,
      nearest_scaled (hlarge (by norm_num) hnote) (by omega)]
  rw [gridLength, gridLength, hwholeScaled, hnoteScaled, mul_right_comm,
    nearest_scaled (hlarge (by norm_num) hlength) (by omega)]

/-! ## Lengths that are whole numbers -/

/-- The odd numbers that divide the longest length. -/
def oddDivisors : List ℕ := [1, 3, 5, 15, 25, 75, 125, 375, 625, 1875]

theorem mem_oddDivisors {n : ℕ} (h : n ∣ 1875) : n ∈ oddDivisors := by
  have hmem := Nat.mem_divisors.mpr ⟨h, by norm_num⟩
  simpa [Nat.divisors_ofNat, oddDivisors] using hmem

/-- With no factor of two, a whole length is had exactly, but for a third at a tempo of 25. -/
theorem gridLength_odd : ∀ parts ∈ oddDivisors, ∀ beats ∈ oddDivisors, parts * beats ∣ 1875 →
    gridLength parts beats = if parts = 3 ∧ beats = 25 then 3200 - pow2 (-41)
      else longestLength / (parts * beats : ℕ) := by
  decide +kernel

theorem exists_odd_factors {parts beats : ℕ} (h : parts * beats ∣ longestLength) :
    ∃ i j p q : ℕ, parts = p * 2 ^ i ∧ beats = q * 2 ^ j ∧ i + j ≤ 7 ∧ p * q ∣ 1875 := by
  have hlength : longestLength = 2 ^ 7 * 1875 := by decide
  have hne : parts * beats ≠ 0 := by
    rintro hzero
    rw [hzero, zero_dvd_iff] at h
    exact absurd h (by decide)
  obtain ⟨hparts, hbeats⟩ := mul_ne_zero_iff.mp hne
  obtain ⟨i, p, hp, rfl⟩ := Nat.exists_eq_two_pow_mul_odd hparts
  obtain ⟨j, q, hq, rfl⟩ := Nat.exists_eq_two_pow_mul_odd hbeats
  have hproduct : 2 ^ i * p * (2 ^ j * q) = 2 ^ (i + j) * (p * q) := by ring
  rw [hproduct, hlength] at h
  refine ⟨i, j, p, q, mul_comm _ _, mul_comm _ _, ?_, ?_⟩
  · have hpow : 2 ^ (i + j) ∣ 2 ^ 7 := by
      have hcoprime : Nat.Coprime (2 ^ (i + j)) 1875 := Nat.Coprime.pow_left _ (by decide)
      exact hcoprime.dvd_of_dvd_mul_right ((Dvd.intro _ rfl).trans h)
    exact (Nat.pow_dvd_pow_iff_le_right (by norm_num)).mp hpow
  · have hcoprime : Nat.Coprime (p * q) (2 ^ 7) :=
      Nat.Coprime.pow_right _ (hp.mul hq).coprime_two_right
    exact hcoprime.dvd_of_dvd_mul_left ((Dvd.intro_left _ rfl).trans h)

/-! ## Cutting off -/

/-- A number near a quotient that is not whole is cut off to the whole part of the quotient. -/
theorem floor_eq_of_near {m d : ℕ} {y : ℚ} (hnonneg : 0 ≤ y) (hd : 0 < d) (hwhole : ¬ d ∣ m)
    (hnear : |y - (m : ℚ) / d| < 1 / (m + 1)) : ⌊y⌋ = (m / d : ℕ) := by
  obtain ⟨hle, hge⟩ := floor_bounds_of_near hd hnonneg hnear
  have hdpos : (0 : ℚ) < d := by exact_mod_cast hd
  have hne : (m : ℚ) / d - 1 ≠ ⌊y⌋ := by
    intro heq
    refine hwhole ?_
    have hmul : (m : ℤ) = d * (⌊y⌋ + 1) := by
      have hquotient : (m : ℚ) / d = ⌊y⌋ + 1 := by linarith
      rw [div_eq_iff hdpos.ne', mul_comm] at hquotient
      exact_mod_cast hquotient
    exact Int.natCast_dvd_natCast.mp ⟨_, hmul⟩
  have hlt := lt_of_le_of_ne hge hne
  have hfloor : ⌊(m : ℚ) / d⌋ = ⌊y⌋ := Int.floor_eq_iff.mpr ⟨hle, by linarith⟩
  rw [← hfloor, Rat.floor_natCast_div_natCast]
  norm_cast

/-- A millisecond is lost of these lengths: three times a power of two at 25 times a power of two,
where the two powers together are at most `2 ^ 7`. -/
def LosesOne (parts beats : ℕ) : Prop :=
  ∃ i j : ℕ, parts = 3 * 2 ^ i ∧ beats = 25 * 2 ^ j ∧ i + j ≤ 7

section

variable (fraction : Fraction) (tempo : Tempo)

theorem Fraction.milliseconds_of_not_dvd
    (h : ¬ fraction.parts * tempo.beats ∣ longestLength) :
    fraction.milliseconds tempo = longestLength / (fraction.parts * tempo.beats) := by
  have herror := fraction.abs_millisecondsOnGrid_sub_le tempo
  have hsmall : (1 : ℚ) / 2 ^ 31 < 1 / (longestLength + 1) := by norm_num [longestLength]
  have hexact : fraction.exactMilliseconds tempo =
      (longestLength : ℚ) / (fraction.parts * tempo.beats : ℕ) := by
    rw [exactMilliseconds, Nat.cast_mul]
  rw [hexact] at herror
  have hfloor := floor_eq_of_near (fraction.millisecondsOnGrid_nonneg tempo)
    (Nat.mul_pos fraction.parts_pos tempo.beats_pos) h (herror.trans_lt hsmall)
  rw [← fraction.milliseconds_eq tempo] at hfloor
  exact_mod_cast hfloor

/-- Where the length is a whole number, the odd factors of fraction and tempo decide what becomes of
it. -/
theorem Fraction.millisecondsOnGrid_of_factors {i j p q : ℕ} (hparts : fraction.parts = p * 2 ^ i)
    (hbeats : tempo.beats = q * 2 ^ j) (hplaces : i + j ≤ 7) (hdvd : p * q ∣ 1875) :
    fraction.millisecondsOnGrid tempo =
      (if p = 3 ∧ q = 25 then 3200 - pow2 (-41) else longestLength / (p * q : ℕ)) *
        pow2 (-(i + j)) := by
  have hp : p ∣ 1875 := (Dvd.intro _ rfl).trans hdvd
  have hq : q ∣ 1875 := (Dvd.intro_left _ rfl).trans hdvd
  have hppos : 0 < p := Nat.pos_of_dvd_of_pos hp (by norm_num)
  have hqpos : 0 < q := Nat.pos_of_dvd_of_pos hq (by norm_num)
  have hgrid : ∀ {n k : ℕ}, n ∣ 1875 → k ≤ 7 → nearest (n * 2 ^ k : ℕ) = n * pow2 k := by
    intro n k hn hk
    have hpow : 2 ^ k ≤ 2 ^ 7 := Nat.pow_le_pow_right (by norm_num) hk
    have hle := Nat.mul_le_mul (Nat.le_of_dvd (by norm_num) hn) hpow
    exact nearest_natCast_mul_pow2 (hle.trans (by norm_num))
  have hodd := gridLength_odd p (mem_oddDivisors hp) q (mem_oddDivisors hq) hdvd
  have hsmall : ∀ {n : ℕ}, n ∣ 1875 → (n : ℚ) ≤ pow2 20 := by
    intro n hn
    have hle : (n : ℚ) ≤ 1875 := by exact_mod_cast Nat.le_of_dvd (by norm_num) hn
    refine hle.trans ?_
    norm_num [pow2]
  rw [fraction.millisecondsOnGrid_eq, hparts, hbeats, hgrid hp (by omega), hgrid hq (by omega),
    gridLength_scaled (by exact_mod_cast hppos) (by exact_mod_cast hqpos) (hsmall hp) (hsmall hq)
      (by omega) (by omega), hodd]

theorem Fraction.milliseconds_of_losesOne (h : LosesOne fraction.parts tempo.beats) :
    fraction.milliseconds tempo + 1 = longestLength / (fraction.parts * tempo.beats) := by
  obtain ⟨i, j, hparts, hbeats, hplaces⟩ := h
  have hgrid := fraction.millisecondsOnGrid_of_factors tempo hparts hbeats hplaces (by norm_num)
  rw [if_pos ⟨rfl, rfl⟩] at hgrid
  have hmilliseconds := fraction.milliseconds_eq tempo
  have hproduct : fraction.parts * tempo.beats = 75 * 2 ^ (i + j) := by
    rw [hparts, hbeats]
    ring
  rw [hgrid, ← Nat.cast_add] at hmilliseconds
  rw [hproduct]
  generalize i + j = k at hplaces hmilliseconds
  interval_cases k <;> norm_num [pow2, longestLength] at hmilliseconds ⊢ <;> omega

theorem Fraction.milliseconds_of_dvd (hdvd : fraction.parts * tempo.beats ∣ longestLength)
    (h : ¬ LosesOne fraction.parts tempo.beats) :
    fraction.milliseconds tempo = longestLength / (fraction.parts * tempo.beats) := by
  obtain ⟨i, j, p, q, hparts, hbeats, hplaces, hodd⟩ := exists_odd_factors hdvd
  have hgrid := fraction.millisecondsOnGrid_of_factors tempo hparts hbeats hplaces hodd
  rw [if_neg] at hgrid
  · have hexact : fraction.millisecondsOnGrid tempo =
        ((longestLength / (fraction.parts * tempo.beats) : ℕ) : ℚ) := by
      have hproduct := Nat.mul_pos fraction.parts_pos tempo.beats_pos
      rw [hgrid, Nat.cast_div hdvd (by positivity), hparts, hbeats, pow2, zpow_neg,
        ← Nat.cast_add, zpow_natCast, ← div_eq_mul_inv, div_div]
      push_cast
      ring
    have hmilliseconds := fraction.milliseconds_eq tempo
    rw [hexact, Int.floor_natCast] at hmilliseconds
    exact_mod_cast hmilliseconds
  · rintro ⟨rfl, rfl⟩
    exact h ⟨i, j, hparts, hbeats, hplaces⟩

end

/-- A length is the exact one, cut off to whole milliseconds, but for those that lose one. -/
theorem durationOf_exact {parts beats : ℕ} (hparts : 0 < parts) (hbeats : 0 < beats)
    (hpartsLt : parts < rangeLimit) (hbeatsLt : beats < rangeLimit) :
    (¬ LosesOne parts beats →
        durationOf (.int parts) (.int beats) = .ok (longestLength / (parts * beats))) ∧
      (LosesOne parts beats → ∃ milliseconds : ℕ,
        durationOf (.int parts) (.int beats) = .ok milliseconds ∧
          milliseconds + 1 = longestLength / (parts * beats)) := by
  have hduration := durationOf_of_lt ⟨parts, hparts⟩ ⟨beats, hbeats⟩ hpartsLt hbeatsLt
  constructor
  · intro hkeeps
    rw [hduration]
    by_cases hdvd : parts * beats ∣ longestLength
    · rw [Fraction.milliseconds_of_dvd ⟨parts, hparts⟩ ⟨beats, hbeats⟩ hdvd hkeeps]
    · rw [Fraction.milliseconds_of_not_dvd ⟨parts, hparts⟩ ⟨beats, hbeats⟩ hdvd]
  · intro hloses
    exact ⟨_, hduration, Fraction.milliseconds_of_losesOne ⟨parts, hparts⟩ ⟨beats, hbeats⟩ hloses⟩

/-- A third at 120 keeps all of its milliseconds, a sixth at 50 loses one. -/
theorem durationOf_exact_third_sixth :
    120 < rangeLimit ∧ ¬ LosesOne 3 120 ∧ durationOf (.int 3) (.int 120) = .ok 666 ∧
      LosesOne 6 50 ∧ durationOf (.int 6) (.int 50) = .ok 799 := by
  have hrange : ∀ {n : ℕ}, n ≤ 2 ^ 7 → n < rangeLimit := lt_rangeLimit (by norm_num)
  have hkeeps : ¬ LosesOne 3 120 := by
    rintro ⟨i, j, _, hbeats, _⟩
    omega
  have hloses : LosesOne 6 50 := ⟨1, 1, rfl, rfl, by norm_num⟩
  have hthird := (durationOf_exact (by norm_num : 0 < 3) (by norm_num : 0 < 120)
    (hrange (by norm_num)) (hrange (by norm_num))).1 hkeeps
  obtain ⟨milliseconds, hsixth, hless⟩ :=
    (durationOf_exact (by norm_num : 0 < 6) (by norm_num : 0 < 50) (hrange (by norm_num))
      (hrange (by norm_num))).2 hloses
  have hexact : longestLength / (6 * 50) = 800 := rfl
  obtain rfl : milliseconds = 799 := by omega
  exact ⟨hrange (by norm_num), hkeeps, hthird, hloses, hsixth⟩

/-- A third at a tempo of 25 lasts 3200 milliseconds exactly, and is given 3199 of them. -/
theorem durationOf_lost_third :
    25 < rangeLimit ∧ longestLength / (3 * 25) = 3200 ∧
      durationOf (.int 3) (.int 25) = .ok 3199 := by
  have hrange : 25 < rangeLimit := lt_rangeLimit (by norm_num) (by norm_num : 25 ≤ 2 ^ 5)
  exact ⟨hrange, rfl, eq_ok_of_toOption (by decide +kernel)⟩

end Ringtone
