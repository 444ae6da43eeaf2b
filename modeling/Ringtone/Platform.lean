import Ringtone.Sound.Header

/-!
# The platform

What the program counts on and does not decide: the memory of the machine, the headers that the
library for sound files writes, and where an account is at home.
-/

namespace Ringtone

/-- What a program of samples and files counts on. -/
structure Platform where
  /-- The number of addresses there are. -/
  addressLimit : Int
  /-- The number of bytes that a program can be given. -/
  memoryLimit : Int
  /-- There are no more of them than addresses. -/
  memoryLimit_le : memoryLimit ≤ addressLimit
  /-- The bytes of a sample in memory. -/
  sampleSize : Int
  /-- There is one at least. -/
  sampleSize_pos : 0 < sampleSize
  /-- The header of a file of samples, for a rate and a number of bytes. -/
  header : (rate size : Nat) → List UInt8
  /-- The rate in the header for what is given as one. -/
  headerRate : Value → Except Fault Nat
  /-- The home directory where the environment names none. -/
  home : List Char

/-- The platform of the program. Its addresses have 64 bits, the highest of which counts as a sign,
and a program has the lower half of what 48 of them reach. -/
def platform : Platform where
  addressLimit := 0x8000000000000000
  memoryLimit := 0x800000000000
  memoryLimit_le := by decide
  sampleSize := 8
  sampleSize_pos := by decide
  header := Sound.wavHeader
  headerRate := Sound.headerRate
  home := ['/']

end Ringtone
