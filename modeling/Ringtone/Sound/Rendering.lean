import Ringtone.Frequency
import Ringtone.Platform
import Ringtone.Score
import Ringtone.Sound.Wave

/-!
# Rendering

Tones become samples one behind the other. A gap is taken from the end of each tone and is silent,
so that every tone begins when it would without gaps: the silence makes up the difference between
the number of samples of the whole length and that of the sounding part.

The arguments are values. Each is looked at when it is first needed: the gap before all else, the
style and the rate with each tone.
-/

namespace Ringtone.Sound

open Number

/-- The samples per second where none are given. -/
def defaultRate : Int := 44100

/-- The style of a name. -/
def Style.ofValue (value : Value) : Except Fault Style :=
  let named := match value with
    | .text name => Style.all.find? fun style => Text.Points.ofString style.name = name
    | _ => none
  match named with
  | some style => .ok style
  | none => .error (.about .unknownStyle value)

/-- The number of samples of a duration in milliseconds, possibly below zero. -/
def sampleCount (duration rate : Quantity) : Except NumberFault Int := do
  (← (← rate.mul duration).divNat 1000).truncate?

/-- The number of samples of a fade: those of ten milliseconds, but no more than half of all. -/
def fadeLength (count : Nat) (rate : Quantity) : Except NumberFault Int := do
  let tenMilliseconds ← ((← rate.toReal).mul (.ofRat (1 / 100))).truncate?
  return min tenMilliseconds (count / 2 : Nat)

/-- A number of samples for which there is room: the number itself has to be an address, then its
bytes have to fit into the address space and into memory. -/
def addressable (fault : Fault) (count : Int) : Except Fault Int :=
  if count < -platform.addressLimit ∨ platform.addressLimit ≤ count then .error fault
  else if platform.addressLimit ≤ count * platform.sampleSize then .error .samplesTooLarge
  else if platform.memoryLimit ≤ count * platform.sampleSize then .error .outOfMemory
  else .ok count

/-- The factors of the fade of so many samples at a rate. -/
def fadeEnvelope (count : Nat) (rate : Quantity) : Except Fault (List Float) := do
  fade count (← ofNumber (fadeLength count rate))

/-- The samples of a tone. -/
def tone (frequency duration rate style : Value) : Except Fault (List Float) := do
  let style ← Style.ofValue style
  let rate ← rate.quantity
  let counted ← ofNumber (sampleCount (← duration.quantity) rate)
  let count := (← addressable .lengthTooLarge counted).toNat
  let realRate ← ofNumber rate.toReal
  if style = .bell ∧ count = 0 then return []
  let factors ← match style with
    | .sine => fadeEnvelope count rate
    | .square | .bell => pure []
  let realFrequency ← ofNumber (← frequency.quantity).toReal
  return wave style realFrequency.toFloat realRate.toFloat count factors

/-- The parts of a value that has parts: the items of a list, the code points of a text, the names
of an object. -/
def partsOf : Value → Except Fault (List Value)
  | .list items => .ok items
  | .text text => .ok (text.map fun point => .text [point])
  | .object members => .ok (members.map fun (name, _) => .text name)
  | _ => .error .wrongKind

/-- The two parts of a value that has two. -/
def pairOf (value : Value) : Except Fault (Value × Value) := do
  match ← partsOf value with
  | [first, second] => return (first, second)
  | _ :: _ :: _ :: _ => throw .longPair
  | parts => throw (.shortPair parts.length)

/-- The quantity as a value. -/
def quantityValue : Quantity → Value
  | .whole n => .int n
  | .real x => .real x

/-- The samples of a tone with the silence after it, for a pair of frequency and duration. -/
def toneWithGap (rate style : Value) (gap : Quantity) (pair : Value) :
    Except Fault (List Float) := do
  let (frequency, duration) ← pairOf pair
  let whole ← duration.quantity
  let sounding := (← ofNumber (whole.sub gap)).orZero
  let samples ← tone frequency (quantityValue sounding) rate style
  let rate ← rate.quantity
  let rest := (← ofNumber (sampleCount whole rate)) - (← ofNumber (sampleCount sounding rate))
  let rest ← addressable .silenceTooLarge rest
  if rest < 0 then throw .negativeLength
  return samples ++ List.replicate rest.toNat 0.0

/-- The samples of a sequence of pairs of frequency and duration, each brought to full scale. -/
def render (pairs rate style gap : Value) : Except Fault (List Float) := do
  let quantity ← gap.quantity
  if quantity.isNegative then throw (.about .negativeGap gap)
  let chunks ← (← partsOf pairs).mapM (toneWithGap rate style quantity)
  return chunks.flatten.map SampleNumber.clamp

/-- The pair of a tone. -/
def toneValue (tone : Tone) : Value := .list [.int tone.frequency, .int tone.duration]

/-- The samples of compiled tones. -/
def renderTones (tones : List Tone) (rate style gap : Value) : Except Fault (List Float) :=
  render (.list (tones.map toneValue)) rate style gap

end Ringtone.Sound
