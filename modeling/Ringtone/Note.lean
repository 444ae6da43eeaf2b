import Ringtone.Duration
import Ringtone.Frequency

/-!
# Notes

A note is written as its fraction followed by the name of its pitch: `4c#4` is a quarter of the C
sharp of the fourth octave. The fraction is a run of ASCII digits, in which leading zeros do not
matter; the pitch is all that follows.
-/

namespace Ringtone

open Number Text

/-- A note of a score. -/
structure Note where
  /-- The part of a whole note that it lasts. -/
  fraction : Fraction
  /-- Its pitch. -/
  pitch : Pitch
deriving DecidableEq

namespace Note

/-- The fraction that a run of digits denotes. -/
def readFraction (digits : List Char) : Except NoteFault Fraction :=
  if digits = [] then .error (.invalidFraction (.ofChars []) .notPositive)
  else if numeralLimit < digits.length then
    .error (.invalidFraction (.ofChars digits) .tooLong)
  else
    let parts := ofDecimalDigits digits
    if h : 0 < parts then .ok ⟨parts, h⟩
    else .error (.invalidFraction (.int 0) .notPositive)

/-- The note that a text denotes. The fraction is read before the pitch is looked at. -/
def parse (text : List Char) : Except NoteFault Note := do
  let fraction ← readFraction (text.takeWhile isAsciiDigit)
  let key := text.dropWhile isAsciiDigit
  match Pitch.ofKey? key with
  | some pitch => .ok { fraction, pitch }
  | none => .error (.unknownPitch (.ofChars key))

end Note

/-- The characters of a text value, with the escapes that show its surrogates. -/
def Value.chars : Value → Except Fault (List Char)
  | .text points => .ok points.toChars
  | _ => .error .wrongKind

/-- The note that a text value denotes. -/
def Note.ofValue (value : Value) : Except Fault Note := do
  (Note.parse (← value.chars)).mapError Fault.ofNote

end Ringtone
