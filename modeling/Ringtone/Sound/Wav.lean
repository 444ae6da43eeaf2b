import Ringtone.Platform

/-!
# WAV files

A file of sixteen-bit samples of one channel: the header that the platform writes, and the samples.
-/

namespace Ringtone.Sound

/-- A file of samples. -/
def wavFile (rate : Nat) (samples : List Int) : List UInt8 :=
  platform.header rate (2 * samples.length) ++ pcmBytes samples

/-- The file of samples at the rate that a value is. -/
def wav (rate : Value) (samples : List Int) : Except Fault (List UInt8) := do
  let rate ← platform.headerRate rate
  if 36 + 2 * samples.length < wordLimit then return wavFile rate samples
  else throw .fileTooLarge

end Ringtone.Sound
