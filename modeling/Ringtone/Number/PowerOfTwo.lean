import Ringtone.Number.Binary64

/-!
# Two to a fractional power

For an exponent `0.b₁b₂b₃…` written in binary, `2 ^ 0.b₁b₂b₃… = √(2 ^ b₁ * 2 ^ 0.b₂b₃…)`. A binary64
exponent has finitely many bits, so its power of two is a finite chain of square roots, taken here
in fixed point with far more places than a binary64 number has. Each root is cut off to a whole
unit, and what is missing under a root weighs less behind it, so the whole chain is short by less
than four units.
-/

namespace Ringtone.Number

/-- The bits of `numerator / 2 ^ places` behind the point, the first of them first. -/
def fractionBits (numerator : Nat) : (places : Nat) → List Bool
  | 0 => []
  | places + 1 => numerator.testBit places :: fractionBits numerator places

/-- The number of binary places of the fixed-point powers. -/
def powerPlaces : Nat := 80

/-- One, in fixed point. -/
def fixedOne : Nat := Nat.pow 2 powerPlaces

/-- `2 ^ 0.b₁b₂b₃…` in fixed point, from the bits of the exponent. -/
def powerOfBits : List Bool → Nat
  | [] => fixedOne
  | bit :: bits => Nat.sqrt ((if bit then 2 else 1) * powerOfBits bits * fixedOne)

/-- The binary64 number nearest to `2 ^ exponent`, for an exponent whose denominator is a power of
two. -/
def powerOfTwo (exponent : Rat) : Binary64 :=
  let whole := exponent.floor
  let rest := exponent - whole
  let bits := fractionBits rest.num.natAbs rest.den.log2
  .ofRat ((powerOfBits bits : Rat) * pow2 (whole - powerPlaces))

end Ringtone.Number
