import Ringtone.Number.Decimal
import Ringtone.Proofs.Numerals
import Ringtone.Proofs.Range

/-!
# Decimals that read back

The shortest decimal of a point of the grid reads back as that point: seventeen digits miss it by
less than half of what parts it from its neighbours, so the search among the decimals of up to
seventeen digits does not come back with empty hands. What a decimal is read as depends on its
value alone, and not on how many of its digits stand before the point.
-/

namespace Ringtone.Number

/-! ## Powers of ten -/

theorem pow10_pos (k : ℤ) : 0 < pow10 k := zpow_pos (by norm_num) k

theorem pow10_add (k l : ℤ) : pow10 (k + l) = pow10 k * pow10 l := zpow_add₀ (by norm_num) k l

theorem pow10_natCast (n : ℕ) : pow10 n = 10 ^ n := zpow_natCast 10 n

theorem pow10_lt {k l : ℤ} : pow10 k < pow10 l ↔ k < l :=
  zpow_lt_zpow_iff_right₀ (by norm_num)

/-- So many digits has a number between two powers of ten. -/
theorem length_decimalDigits_bounds {n : ℕ} (h : 0 < n) :
    0 < (decimalDigits n).length ∧ 10 ^ ((decimalDigits n).length - 1) ≤ n ∧
      n < 10 ^ (decimalDigits n).length := by
  have hlt : n < 10 ^ (decimalDigits n).length := by
    rcases Nat.eq_zero_or_pos (decimalDigits n).length with hzero | hpos
    · exact absurd (List.length_eq_zero_iff.mp hzero) Nat.toDigits_ne_nil
    · exact (Nat.length_toDigits_le_iff (by norm_num) hpos).mp le_rfl
  have hpos : 0 < (decimalDigits n).length := by
    rw [List.length_pos_iff]
    exact Nat.toDigits_ne_nil
  refine ⟨hpos, ?_, hlt⟩
  rcases Nat.eq_zero_or_pos ((decimalDigits n).length - 1) with hone | hmore
  · rw [hone, pow_zero]
    exact h
  · by_contra hless
    have := (Nat.length_toDigits_le_iff (b := 10) (by norm_num) hmore).mpr (not_le.mp hless)
    change (decimalDigits n).length ≤ (decimalDigits n).length - 1 at this
    omega

/-- A number of the format: its value, if it has one, is a point of the grid below the limit. -/
def Binary64.IsProper : Binary64 → Prop
  | .finite x => OnGrid x ∧ |x| < overflow
  | _ => True

theorem Binary64.isProper_zero (negative : Bool) : (zero negative).IsProper := by
  have hzero : OnGrid 0 := by simpa using onGrid_intCast (n := 0) (by simp)
  cases negative with
  | false => exact ⟨hzero, by rw [abs_zero]; exact pow2_pos _⟩
  | true => trivial

theorem Binary64.isProper_ofRat (x : ℚ) : (ofRat x).IsProper := by
  cases hx : ofRat x with
  | finite value =>
    simp only [ofRat] at hx
    split_ifs at hx with hzero hneg habove hbelow
    · cases hx
      exact isProper_zero false
    · cases hx
      exact ⟨onGrid_nearest x, abs_lt.mpr ⟨not_le.mp hbelow, not_le.mp habove⟩⟩
  | _ => exact True.intro

/-- Rounding a number below zero gives the number above zero turned round. -/
theorem Binary64.ofRat_neg {x : ℚ} (hpos : 0 < x) : ofRat (-x) = (ofRat x).neg := by
  have hoverflow : (0 : ℚ) < overflow := pow2_pos _
  have hnonneg := nearest_nonneg hpos.le
  simp only [ofRat, nearest_neg, neg_eq_zero]
  split_ifs <;> first | linarith | simp_all [neg]

/-! ## The value of a decimal -/

namespace Decimal

/-- The rational number that the digits of a decimal denote. -/
def value (d : Decimal) : ℚ := d.digits * pow10 d.exponent

/-- The number of digits before the point, which is below zero when zeros follow the point. -/
def size (d : Decimal) : ℤ := (decimalDigits d.digits).length + d.exponent

theorem size_bounds {d : Decimal} (h : 0 < d.digits) :
    pow10 (d.size - 1) ≤ d.value ∧ d.value < pow10 d.size := by
  obtain ⟨hpos, hlow, hhigh⟩ := length_decimalDigits_bounds h
  have hexponent := pow10_pos d.exponent
  constructor
  · have hsplit : d.size - 1 = ((decimalDigits d.digits).length - 1 : ℕ) + d.exponent := by
      rw [size, Nat.cast_sub hpos]
      ring
    rw [hsplit, pow10_add, pow10_natCast, value]
    exact mul_le_mul_of_nonneg_right (by exact_mod_cast hlow) hexponent.le
  · rw [size, pow10_add, pow10_natCast, value]
    exact mul_lt_mul_of_pos_right (by exact_mod_cast hhigh) hexponent

theorem digits_pos_iff {d : Decimal} : 0 < d.digits ↔ 0 < d.value := by
  rw [value, mul_pos_iff_of_pos_right (pow10_pos _), Nat.cast_pos]

theorem size_eq_of_value_eq {d e : Decimal} (hd : 0 < d.digits) (h : d.value = e.value) :
    d.size = e.size := by
  have he : 0 < e.digits := by rwa [digits_pos_iff, ← h, ← digits_pos_iff]
  obtain ⟨hdlow, hdhigh⟩ := size_bounds hd
  obtain ⟨helow, hehigh⟩ := size_bounds he
  rw [h] at hdlow hdhigh
  have h1 := pow10_lt.mp (hdlow.trans_lt hehigh)
  have h2 := pow10_lt.mp (helow.trans_lt hdhigh)
  omega

theorem toBinary64_eq (d : Decimal) :
    d.toBinary64 =
      if d.digits = 0 then .zero d.negative
      else if 310 < d.size then .infinite d.negative
      else if d.size < -330 then .zero d.negative
      else .ofRat (if d.negative then -d.value else d.value) := rfl

/-- Reading looks at the sign and the value only. -/
theorem isProper_toBinary64 (d : Decimal) : d.toBinary64.IsProper := by
  rw [toBinary64_eq]
  split_ifs
  · exact Binary64.isProper_zero _
  · trivial
  · exact Binary64.isProper_zero _
  · exact Binary64.isProper_ofRat _
  · exact Binary64.isProper_ofRat _

theorem toBinary64_congr {d e : Decimal} (hnegative : d.negative = e.negative)
    (hvalue : d.value = e.value) : d.toBinary64 = e.toBinary64 := by
  rw [toBinary64_eq, toBinary64_eq, hnegative, hvalue]
  rcases Nat.eq_zero_or_pos d.digits with hzero | hpos
  · have he : e.digits = 0 := by
      by_contra hne
      have := digits_pos_iff.mp (Nat.pos_of_ne_zero hne)
      rw [← hvalue, value, hzero, Nat.cast_zero, zero_mul] at this
      exact lt_irrefl _ this
    rw [if_pos hzero, if_pos he]
  · have he : 0 < e.digits := by rwa [digits_pos_iff, ← hvalue, ← digits_pos_iff]
    rw [if_neg hpos.ne', if_neg he.ne', size_eq_of_value_eq hpos hvalue]

/-- A minus sign in front turns the number round. -/
theorem toBinary64_neg {d : Decimal} (h : d.negative = false) :
    { d with negative := true }.toBinary64 = d.toBinary64.neg := by
  have hsize : { d with negative := true }.size = d.size := rfl
  have hvalue : { d with negative := true }.value = d.value := rfl
  rw [toBinary64_eq, toBinary64_eq, hsize, hvalue, h, if_pos rfl, if_neg Bool.false_ne_true]
  rcases Nat.eq_zero_or_pos d.digits with hzero | hpos
  · rw [if_pos hzero, if_pos hzero]
    rfl
  · rw [if_neg hpos.ne', if_neg hpos.ne']
    split_ifs with hlarge hsmall
    · rfl
    · rfl
    · exact Binary64.ofRat_neg (digits_pos_iff.mp hpos)

end Decimal

/-! ## Neighbours on the grid -/

/-- Two points of the grid are more than one part in `2 ^ 53` of the lower one apart. -/
theorem OnGrid.lt_mul_sub {g h : ℚ} (hg : OnGrid g) (hh : OnGrid h) (hpos : 0 < g) (hlt : g < h) :
    g < 2 ^ 53 * (h - g) := by
  have hplace : lastPlace g = lowestPlace ∨ pow2 (lastPlace g + 52) ≤ |g| := by
    have hbinade := pow2_binade_le hpos.ne'
    have hlast : lastPlace g = max (binade g - 52) lowestPlace := by rw [lastPlace, if_neg hpos.ne']
    rcases le_total (binade g - 52) lowestPlace with hle | hle
    · left; rw [hlast, max_eq_right hle]
    · right; rw [hlast, max_eq_left hle, sub_add_cancel]; exact hbinade
  have habs : |g| ≤ |h| := by
    rw [abs_of_pos hpos, abs_of_pos (hpos.trans hlt)]
    exact hlt.le
  obtain ⟨m, hm⟩ := hg.eq_mul hplace
  obtain ⟨n, hn⟩ := hh.eq_mul (hplace.imp_right fun hle => hle.trans habs)
  have hspacing := spacing_pos g
  change g = m * spacing g at hm
  change h = n * spacing g at hn
  have hmn : (m : ℚ) < n := by
    refine lt_of_mul_lt_mul_right ?_ hspacing.le
    rwa [← hm, ← hn]
  have hstep : (m : ℚ) + 1 ≤ n := by exact_mod_cast hmn
  have hgap : spacing g ≤ h - g := by
    have := mul_le_mul_of_nonneg_right hstep hspacing.le
    rw [add_mul, one_mul, ← hm, ← hn] at this
    linarith
  have hsize := abs_lt_spacing g
  rw [abs_of_pos hpos] at hsize
  linarith

/-- What is nearer to a point of the grid than half of a unit in its seventeenth digit rounds to
that point. -/
theorem nearest_eq_of_near {x y : ℚ} (hx : OnGrid x) (hpos : 0 < x)
    (hnear : |y - x| ≤ x / 10 ^ 16 / 2) : nearest y = x := by
  have hz := onGrid_nearest y
  have hclosest := abs_sub_nearest_le_of_onGrid y hx
  set z := nearest y
  have hboth : |z - x| ≤ x / 10 ^ 16 := by
    have htriangle := abs_sub_le z y x
    rw [abs_sub_comm z y] at htriangle
    linarith
  obtain ⟨hlow, hhigh⟩ := abs_le.mp hboth
  rcases lt_trichotomy z x with hlt | heq | hlt
  · have hzpos : 0 < z := by linarith
    have := hz.lt_mul_sub hx hzpos hlt
    linarith
  · exact heq
  · have := hx.lt_mul_sub hz hpos hlt
    linarith

/-! ## The search for the shortest decimal -/

namespace Decimal

variable {x : ℚ}

theorem exponentOf_bounds (hpos : 0 < x) :
    pow10 (exponentOf x) ≤ x ∧ x < pow10 (exponentOf x + 1) := by
  have hnum : 0 < x.num.natAbs := Int.natAbs_pos.mpr (Rat.num_ne_zero.mpr hpos.ne')
  obtain ⟨hn, hnlow, hnhigh⟩ := length_decimalDigits_bounds hnum
  obtain ⟨hd, hdlow, hdhigh⟩ := length_decimalDigits_bounds x.den_pos
  set n := (decimalDigits x.num.natAbs).length
  set d := (decimalDigits x.den).length
  have hdpos : (0 : ℚ) < x.den := by exact_mod_cast x.den_pos
  have hvalue : x * x.den = x.num.natAbs := by
    rw [Rat.mul_den_eq_num, Nat.cast_natAbs, abs_of_pos (Rat.num_pos.mpr hpos)]
  have hnlow' : pow10 ((n : ℤ) - 1) ≤ x.num.natAbs := by
    rw [← Nat.cast_one, ← Nat.cast_sub hn, pow10_natCast]; exact_mod_cast hnlow
  have hnhigh' : (x.num.natAbs : ℚ) < pow10 n := by rw [pow10_natCast]; exact_mod_cast hnhigh
  have hdlow' : pow10 ((d : ℤ) - 1) ≤ x.den := by
    rw [← Nat.cast_one, ← Nat.cast_sub hd, pow10_natCast]; exact_mod_cast hdlow
  have hdhigh' : (x.den : ℚ) < pow10 d := by rw [pow10_natCast]; exact_mod_cast hdhigh
  have hlow : pow10 ((n : ℤ) - d - 1) ≤ x := by
    refine le_of_mul_le_mul_right ?_ hdpos
    calc pow10 ((n : ℤ) - d - 1) * x.den
        ≤ pow10 ((n : ℤ) - d - 1) * pow10 d := mul_le_mul_of_nonneg_left hdhigh'.le (pow10_pos _).le
      _ = pow10 ((n : ℤ) - 1) := by rw [← pow10_add]; congr 1; ring
      _ ≤ x * x.den := hvalue ▸ hnlow'
  have hhigh : x < pow10 ((n : ℤ) - d + 1) := by
    refine lt_of_mul_lt_mul_right ?_ hdpos.le
    calc x * x.den < pow10 n := hvalue ▸ hnhigh'
      _ = pow10 ((n : ℤ) - d + 1) * pow10 ((d : ℤ) - 1) := by rw [← pow10_add]; congr 1; ring
      _ ≤ pow10 ((n : ℤ) - d + 1) * x.den := mul_le_mul_of_nonneg_left hdlow' (pow10_pos _).le
  unfold exponentOf
  dsimp only
  split_ifs with h
  · exact ⟨h, hhigh⟩
  · rw [sub_add_cancel]
    exact ⟨hlow, not_le.mp h⟩

/-- The decimal of seventeen digits that is nearest. -/
def rounded (x : ℚ) : Decimal :=
  { digits := (roundEven (x / pow10 (exponentOf x - 16))).toNat, exponent := exponentOf x - 16 }

theorem rounded_mem_neighbours (hpos : 0 < x) : rounded x ∈ neighbours x 17 := by
  have hexponent : exponentOf x + 1 - (17 : ℕ) = exponentOf x - 16 := by push_cast; ring
  simp only [neighbours, hexponent, rounded]
  set scaled := x / pow10 (exponentOf x - 16)
  have hfloor : 0 ≤ scaled.floor := by
    rw [floor_eq]
    exact Int.floor_nonneg.mpr (div_pos hpos (pow10_pos _)).le
  have hround : roundEven scaled = scaled.floor ∨ roundEven scaled = scaled.floor + 1 := by
    unfold roundEven
    dsimp only
    split_ifs <;> simp
  rcases hround with h | h
  · rw [if_pos h, h]
    exact List.mem_cons_self
  · rw [if_neg (by omega), h, show (scaled.floor + 1).toNat = scaled.floor.toNat + 1 by omega]
    exact List.mem_cons_self

theorem rounded_near (hpos : 0 < x) :
    0 < (rounded x).digits ∧ |(rounded x).value - x| ≤ x / 10 ^ 16 / 2 := by
  obtain ⟨hlow, _⟩ := exponentOf_bounds hpos
  have hplace := pow10_pos (exponentOf x - 16)
  have hsixteen : pow10 (exponentOf x) = 10 ^ 16 * pow10 (exponentOf x - 16) := by
    have hsum : exponentOf x = (16 : ℕ) + (exponentOf x - 16) := by push_cast; ring
    conv_lhs => rw [hsum, pow10_add, pow10_natCast]
  have hscaled : (10 : ℚ) ^ 16 ≤ x / pow10 (exponentOf x - 16) := by
    rw [le_div_iff₀ hplace, ← hsixteen]
    exact hlow
  have herror := abs_sub_roundEven_le (x / pow10 (exponentOf x - 16))
  set n := roundEven (x / pow10 (exponentOf x - 16)) with hn
  have hnpos : 0 < n := by
    have := (abs_le.mp herror).2
    have hcast : (0 : ℚ) < n := by linarith
    exact_mod_cast hcast
  have hdigits : ((rounded x).digits : ℚ) = n := by
    have : ((n.toNat : ℤ) : ℚ) = n := by rw [Int.toNat_of_nonneg hnpos.le]
    exact_mod_cast this
  refine ⟨Int.pos_iff_toNat_pos.mp hnpos, ?_⟩
  have hsplit : (rounded x).value - x =
      -(x / pow10 (exponentOf x - 16) - n) * pow10 (exponentOf x - 16) := by
    rw [value, hdigits, neg_sub, sub_mul, div_mul_cancel₀ x hplace.ne']
    rfl
  rw [hsplit, abs_mul, abs_neg, abs_of_pos hplace]
  calc |x / pow10 (exponentOf x - 16) - n| * pow10 (exponentOf x - 16)
      ≤ 1 / 2 * pow10 (exponentOf x - 16) := mul_le_mul_of_nonneg_right herror hplace.le
    _ ≤ x / 10 ^ 16 / 2 := by rw [hsixteen] at hlow; linarith

theorem pow2_lowestPlace_le (hgrid : OnGrid x) (hpos : 0 < x) : pow2 lowestPlace ≤ x := by
  obtain ⟨m, hm⟩ := hgrid.eq_mul (Or.inl rfl)
  have hmpos : (0 : ℚ) < m := by
    rw [hm] at hpos
    exact pos_of_mul_pos_left hpos (pow2_pos _).le
  have hone : (1 : ℚ) ≤ m := by exact_mod_cast hmpos
  rw [hm]
  exact le_mul_of_one_le_left (pow2_pos _).le hone

theorem overflow_le_pow10 : Binary64.overflow ≤ pow10 309 := by
  have hnat : 2 ^ 1024 ≤ 10 ^ 309 := by decide +kernel
  rw [Binary64.overflow, show (1024 : ℤ) = (1024 : ℕ) from rfl, pow2_natCast,
    show (309 : ℤ) = (309 : ℕ) from rfl, pow10_natCast]
  exact_mod_cast hnat

theorem pow10_lt_half_lowest : pow10 (-330) < pow2 lowestPlace / 2 := by
  have hpow : pow10 (-330) < pow2 (-1075) := by
    have hnat : 2 ^ 1075 < 10 ^ 330 := by decide +kernel
    rw [pow10, pow2, zpow_neg, zpow_neg, show (330 : ℤ) = (330 : ℕ) from rfl,
      show (1075 : ℤ) = (1075 : ℕ) from rfl, zpow_natCast, zpow_natCast]
    exact inv_strictAnti₀ (by positivity) (by exact_mod_cast hnat)
  have hhalf : pow2 lowestPlace = 2 * pow2 (-1075) := by
    rw [show lowestPlace = 1 + -1075 from rfl, pow2_add, pow2, zpow_one]
  linarith

/-- A decimal near a point of the grid is neither too large nor too small to be read by rounding. -/
theorem size_of_near {d : Decimal} (hdigits : 0 < d.digits) (hgrid : OnGrid x) (hpos : 0 < x)
    (hlimit : x < Binary64.overflow) (hnear : |d.value - x| ≤ x / 10 ^ 16 / 2) :
    -330 ≤ d.size ∧ d.size ≤ 310 := by
  obtain ⟨hlow, hhigh⟩ := abs_le.mp hnear
  obtain ⟨hsizelow, hsizehigh⟩ := size_bounds hdigits
  constructor
  · have hleast := pow2_lowestPlace_le hgrid hpos
    have hbelow := pow10_lt_half_lowest
    have hless : pow10 (-330) < pow10 d.size := by linarith
    have := pow10_lt.mp hless
    omega
  · have hbeyond := overflow_le_pow10
    have hten : pow10 310 = 10 * pow10 309 := by
      rw [show (310 : ℤ) = 1 + 309 from rfl, pow10_add, pow10, zpow_one]
    have hless : pow10 (d.size - 1) < pow10 310 := by linarith
    have := pow10_lt.mp hless
    omega

/-- A decimal of the size of numbers of the format is read by rounding its value. -/
theorem toBinary64_of_near {d : Decimal} (hsign : d.negative = false) (hdigits : 0 < d.digits)
    (hgrid : OnGrid x) (hpos : 0 < x) (hlimit : x < Binary64.overflow)
    (hnear : |d.value - x| ≤ x / 10 ^ 16 / 2) : d.toBinary64 = .finite x := by
  obtain ⟨hsmall, hlarge⟩ := size_of_near hdigits hgrid hpos hlimit hnear
  have hround : nearest d.value = x := nearest_eq_of_near hgrid hpos hnear
  have hoverflow : -Binary64.overflow < 0 := neg_neg_of_pos (pow2_pos _)
  rw [toBinary64_eq, if_neg hdigits.ne', if_neg (by omega), if_neg (by omega), hsign,
    if_neg Bool.false_ne_true, Binary64.ofRat, hround, if_neg hpos.ne',
    if_neg (not_le.mpr hlimit), if_neg (by linarith)]

theorem negative_shortest (x : ℚ) : (shortest x).negative = false := by
  simp only [shortest]
  cases hfind : ((List.range 17).flatMap fun n => neighbours x (n + 1)).find?
      fun d => d.toBinary64 = .finite x with
  | none => rfl
  | some d =>
    obtain ⟨n, _, hd⟩ := List.mem_flatMap.mp (List.mem_of_find?_eq_some hfind)
    simp only [neighbours] at hd
    split_ifs at hd <;> simp only [List.mem_cons, List.not_mem_nil, or_false] at hd <;>
      rcases hd with rfl | rfl <;> rfl

/-- The shortest decimal of a point of the grid reads back. -/
theorem toBinary64_shortest (hgrid : OnGrid x) (hpos : 0 < x) (hlimit : x < Binary64.overflow) :
    (shortest x).toBinary64 = .finite x := by
  -- the search ends at seventeen digits at the latest, since these are near enough
  obtain ⟨hdigits, hnear⟩ := rounded_near hpos
  have hread : (rounded x).toBinary64 = .finite x :=
    toBinary64_of_near rfl hdigits hgrid hpos hlimit hnear
  have hmem : rounded x ∈ (List.range 17).flatMap fun n => neighbours x (n + 1) :=
    List.mem_flatMap.mpr ⟨16, by simp, rounded_mem_neighbours hpos⟩
  simp only [shortest]
  cases hfind : ((List.range 17).flatMap fun n => neighbours x (n + 1)).find?
      fun d => d.toBinary64 = .finite x with
  | none =>
    have := List.find?_eq_none.mp hfind _ hmem
    exact absurd (decide_eq_true hread) this
  | some d =>
    have hd := List.find?_some hfind
    exact of_decide_eq_true hd

end Decimal

end Ringtone.Number
