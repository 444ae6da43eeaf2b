import Ringtone.Fault
import Ringtone.Number.PowerOfTwo
import Ringtone.Pitch

/-!
# Frequencies

In equal temperament a semitone multiplies the frequency by the twelfth root of two. The frequency
of a pitch is the tuning times that power, rounded to whole Hertz with halves going up.
-/

namespace Ringtone

open Number

namespace Pitch

/-- The pitch that a value names. -/
def ofValue (value : Value) : Except Fault Pitch :=
  let named := match value with
    | .text name => name.toChars?.bind ofKey?
    | _ => none
  match named with
  | some pitch => .ok pitch
  | none => .error (.ofNote (.unknownPitch value))

/-- The ratio of the frequency of a pitch to that of the A of the fourth octave. -/
def ratio (pitch : Pitch) : Binary64 := powerOfTwo (nearest (pitch.offset / 12))

/-- The frequency of a pitch in whole Hertz under a tuning. -/
def frequency (pitch : Pitch) (tuning : Quantity) : Except NumberFault Int := do
  ((( ← tuning.toReal).mul pitch.ratio).add (.finite (1 / 2))).floor?

end Pitch

namespace Value

/-- The quantity that a value is; a truth value counts as one or zero. -/
def quantity : Value → Except Fault Quantity
  | .bool b => .ok (.whole (if b then 1 else 0))
  | .int n => .ok (.whole n)
  | .real x => .ok (.real x)
  | _ => .error .wrongKind

end Value

/-- The outcome of a computation with numbers. -/
def ofNumber {α : Type} : Except NumberFault α → Except Fault α := Except.mapError .number

/-- The frequency of the pitch that a value names, under a tuning that is any quantity. -/
def frequencyOf (pitch tuning : Value) : Except Fault Int := do
  let pitch ← Pitch.ofValue pitch
  ofNumber (pitch.frequency (← tuning.quantity))

end Ringtone
