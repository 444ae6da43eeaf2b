import Ringtone.Fault
import Ringtone.Sound.Pcm

/-!
# Headers of WAV files

The header of a file of sixteen-bit samples of one channel: 44 bytes, which name the size of what
follows, the format and its rates, and the size of the samples.
-/

namespace Ringtone.Sound

open Number

/-- The bytes of an ASCII text. -/
def asciiBytes (text : String) : List UInt8 := text.toList.map fun c => c.toNat.toUInt8

/-- The bytes of a number of 32 bits. -/
def word (n : Nat) : List UInt8 := bytesOf 4 n

/-- The bytes of a number of sixteen bits. -/
def halfWord (n : Nat) : List UInt8 := bytesOf 2 n

/-- The header of a file with `size` bytes of samples. -/
def wavHeader (rate size : Nat) : List UInt8 :=
  asciiBytes "RIFF" ++ word (36 + size) ++ asciiBytes "WAVE"
    ++ asciiBytes "fmt " ++ word 16 ++ halfWord 1 ++ halfWord 1 ++ word rate ++ word (2 * rate)
    ++ halfWord 2 ++ halfWord 16
    ++ asciiBytes "data" ++ word size

/-- The least number that has no room in a word of 32 bits. -/
def wordLimit : Nat := 0x100000000

/-- The rate that a value is, if the header has room for it and for its double. -/
def headerRate : Value → Except Fault Nat
  | .int rate => if 0 ≤ rate ∧ 2 * rate < wordLimit then .ok rate.toNat else .error .headerField
  | .bool b => .ok (if b then 1 else 0)
  | .null | .object _ => .error .wrongKind
  | .real _ | .text _ | .list _ => .error .headerField

end Ringtone.Sound
