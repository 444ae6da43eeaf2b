import Ringtone.Number.Binary64

/-!
# Sixteen-bit samples

A sample between minus one and one becomes a whole number between -32767 and 32767, which is stored
in two bytes, the lower one first and negative numbers as what is missing to
`0x10000`.
-/

namespace Ringtone.Sound

open Number

/-- Full scale. -/
def fullScale : Int := 32767

/-- A rational sample brought between minus one and one. -/
def clampRat (x : Rat) : Rat := if x < -1 then -1 else if 1 < x then 1 else x

/-- The whole number of a sample: what is before the point of its multiple of full scale. What is
not a number is silent. -/
def quantise : Binary64 → Int
  | .finite value => truncate (nearest (clampRat value * fullScale))
  | .negativeZero => 0
  | .infinite negative => if negative then -fullScale else fullScale
  | .nan => 0

/-- The lowest `width` bytes of a number, the lowest first. -/
def bytesOf : (width : Nat) → Nat → List UInt8
  | 0, _ => []
  | width + 1, n => n.toUInt8 :: bytesOf width (n / 256)

/-- The two bytes of a whole number of sixteen bits. -/
def sampleBytes (n : Int) : List UInt8 := bytesOf 2 (n % 0x10000).toNat

/-- The bytes of a sequence of samples. -/
def pcmBytes (samples : List Int) : List UInt8 := samples.flatMap sampleBytes

/-- The whole numbers of machine samples. -/
def quantiseAll (samples : List Float) : List Int :=
  samples.map fun sample => quantise (.ofFloat sample)

end Ringtone.Sound
