/-!
# Rounding a rational number to the binary64 grid

The finite numbers of the binary64 format are the multiples `m * 2 ^ k` with `|m| < 2 ^ 53` and
`k ≥ -1074`. Between two powers of two they lie evenly: `spacing x` apart around `x`. Rounding is
therefore division by the spacing, rounding to a whole number with ties going to the even
neighbour, and multiplication by the spacing again. Nothing is said here about the largest finite
number; `Ringtone.Number.Binary64` draws that line.
-/

namespace Ringtone.Number

/-- The power of two with exponent `k`. -/
def pow2 (k : Int) : Rat := (2 : Rat) ^ k

/-- The distance of a number from zero. -/
def magnitude (x : Rat) : Rat := if x < 0 then -x else x

/-- The whole number nearest to `x`; half-way cases go to the even neighbour. -/
def roundEven (x : Rat) : Int :=
  let below := x.floor
  let excess := x - below
  if excess < 1 / 2 then below
  else if 1 / 2 < excess then below + 1
  else if below % 2 = 0 then below
  else below + 1

/-- The part of `x` before the point: the nearest whole number that is no farther from zero. -/
def truncate (x : Rat) : Int := if x < 0 then -(-x).floor else x.floor

/-- The exponent of the greatest power of two that is at most the magnitude of `x`. The bit lengths
of numerator and denominator give it up to one. -/
def binade (x : Rat) : Int :=
  let guess := (x.num.natAbs.log2 : Int) - (x.den.log2 : Int)
  if pow2 guess ≤ magnitude x then guess else guess - 1

/-- The exponent of the lowest last place. -/
def lowestPlace : Int := -1074

/-- The exponent of the last place of a number of the size of `x`: 53 significant bits, but nothing
below the lowest place, which is that of zero. -/
def lastPlace (x : Rat) : Int :=
  if x = 0 then lowestPlace else max (binade x - 52) lowestPlace

/-- The distance of neighbouring binary64 numbers of the size of `x`. -/
def spacing (x : Rat) : Rat := pow2 (lastPlace x)

/-- The point of the binary64 grid nearest to `x`; half-way cases go to the point with an even last
place. -/
def nearest (x : Rat) : Rat := roundEven (x / spacing x) * spacing x

@[simp]
theorem roundEven_zero : roundEven 0 = 0 := by decide +kernel

@[simp]
theorem nearest_zero : nearest 0 = 0 := by
  rw [nearest, Rat.div_def, Rat.zero_mul, roundEven_zero]
  exact Rat.zero_mul _

end Ringtone.Number
