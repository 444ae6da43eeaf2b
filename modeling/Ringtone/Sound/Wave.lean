import Ringtone.Fault

/-!
# Waves

The three styles in which a tone can be played, as functions of the sample's index. They are
written over any kind of number that has a sine and an exponential: with the machine's floats they
give the samples, and over the real numbers they say what the samples stand for. The order of the
operations is part of the definition, since each of them rounds.

A sine wave is multiplied by a fade. The fade begins as ones, over which two stretches are written;
where the stretches overlap the second one stands.
-/

namespace Ringtone.Sound

/-- Numbers that samples are computed with. -/
class SampleNumber (α : Type) extends Add α, Sub α, Neg α, Mul α, Div α where
  /-- A whole number. -/
  ofNat : Nat → α
  /-- The decimal `digits / 10 ^ places`. -/
  decimal : (digits places : Nat) → α
  /-- The ratio of a circle's circumference to its diameter. -/
  pi : α
  /-- The sine. -/
  sin : α → α
  /-- The exponential. -/
  exp : α → α
  /-- One, zero or minus one, as the number is above, at or below zero. -/
  sign : α → α
  /-- The number, or the nearer of one and minus one when it is not between them. -/
  clamp : α → α

instance : SampleNumber Float where
  ofNat := Float.ofNat
  decimal digits places := Float.ofScientific digits true places
  pi := Float.ofScientific 3141592653589793 true 15
  sin := Float.sin
  exp := Float.exp
  sign x := if 0.0 < x then 1.0 else if x < 0.0 then -1.0 else if x == 0.0 then 0.0 else x
  clamp x := if x < -1.0 then -1.0 else if 1.0 < x then 1.0 else x

/-- A way of playing a tone. -/
inductive Style where
  /-- A sine wave that is faded in and out. -/
  | sine
  /-- A square wave, as of a buzzer. -/
  | square
  /-- A bell: harmonics that die away. -/
  | bell
deriving DecidableEq

namespace Style

/-- The styles, in the order in which they are listed. -/
def all : List Style := [.sine, .square, .bell]

/-- The name of a style. -/
def name : Style → String
  | .sine => "sine"
  | .square => "square"
  | .bell => "bell"

end Style

section

variable {α : Type} [SampleNumber α]

open SampleNumber

/-- The time of a sample in seconds. -/
def time (rate : α) (i : Nat) : α := ofNat i / rate

/-- The full circle. -/
def circle : α := decimal 2 0 * pi

/-- The place in a list of `length` elements that an index means. Below zero it counts from the end,
and what is outside comes to the nearer end. -/
def placeOfIndex (length : Nat) (index : Int) : Nat :=
  if index < 0 then (index + length).toNat else min index.toNat length

/-- The elements to be written over a stretch of some length: as many, or one that fills it. -/
def filling {β : Type} (length : Nat) : List β → Except Fault (List β)
  | [value] => .ok (List.replicate length value)
  | values =>
    if values.length = length then .ok values else .error (.fadeMismatch values.length length)

/-- A list with the stretch from the index `first` up to the index `last` written over. -/
def overwrite {β : Type} (list : List β) (first last : Int) (values : List β) :
    Except Fault (List β) := do
  let start := placeOfIndex list.length first
  let length := placeOfIndex list.length last - start
  return list.take start ++ (← filling length values) ++ list.drop (start + length)

/-- The steps from zero up to one, which is not reached. -/
def ramp (length : Nat) : List α := (List.range length).map fun i => ofNat i / ofNat length

/-- The factors of a fade: ones, with a ramp written over the beginning and the same ramp backwards
over the end. The length of the ramp may be below zero, as indices may; there are no steps then. -/
def fade (count : Nat) (length : Int) : Except Fault (List α) := do
  let ones := List.replicate count (decimal 1 0)
  if length = 0 then return ones
  let steps := ramp length.toNat
  let rising ← overwrite ones 0 length steps
  overwrite rising (count - length) count steps.reverse

/-- A sample of a sine wave that is not faded. -/
def sineSample (frequency rate : α) (i : Nat) : α := sin (circle * frequency * time rate i)

/-- A sample of a square wave, at half of full scale. -/
def squareSample (frequency rate : α) (i : Nat) : α :=
  decimal 5 1 * sign (sin (circle * frequency * time rate i))

/-- A partial tone of the bell. -/
structure Harmonic (α : Type) where
  /-- The multiple of the tone's frequency. -/
  multiple : α
  /-- The share of full scale at the beginning. -/
  share : α
  /-- The speed at which it dies away. -/
  decay : α

/-- The partial tones of the bell. -/
def harmonics : List (Harmonic α) :=
  [⟨decimal 1 0, decimal 1 0, decimal 1 0⟩, ⟨decimal 2 0, decimal 5 1, decimal 15 1⟩,
    ⟨decimal 3 0, decimal 25 2, decimal 2 0⟩, ⟨decimal 4 0, decimal 15 2, decimal 25 1⟩,
    ⟨decimal 5 0, decimal 1 1, decimal 3 0⟩]

/-- A sample of a partial tone, at a part `progress` of the whole length. -/
def Harmonic.sample (harmonic : Harmonic α) (frequency rate progress : α) (i : Nat) : α :=
  harmonic.share * exp (-progress * harmonic.decay * decimal 3 0)
    * sin (circle * frequency * harmonic.multiple * time rate i)

/-- The loudness of the bell: struck within a moment, then dying away. -/
def strike (progress : α) : α :=
  exp (-progress * decimal 4 0) * (decimal 1 0 - exp (-progress * decimal 50 0))

/-- A sample of the bell. -/
def bellSample (frequency rate : α) (count i : Nat) : α :=
  let progress : α := ofNat i / ofNat count
  let sum := harmonics.foldl
    (fun sum harmonic => sum + harmonic.sample frequency rate progress i) (decimal 0 0)
  decimal 4 1 * strike progress * sum

/-- The samples of a tone. The factors are those of a sine wave's fade. -/
def wave (style : Style) (frequency rate : α) (count : Nat) (factors : List α) : List α :=
  match style with
  | .sine => List.zipWith (· * ·) factors ((List.range count).map (sineSample frequency rate))
  | .square => (List.range count).map (squareSample frequency rate)
  | .bell => (List.range count).map (bellSample frequency rate count)

end

end Ringtone.Sound
