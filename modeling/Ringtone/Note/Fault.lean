import Ringtone.Value

/-!
# Faults of a note

What can be wrong with a note, a pitch, a fraction or a tempo on its own. A fault keeps the value
that it is about as it was given.
-/

namespace Ringtone

/-- Why a number is refused. -/
inductive Refusal where
  /-- It is not a whole number above zero. -/
  | notPositive
  /-- Its numeral has too many digits to be read. -/
  | tooLong
  /-- No binary64 number is near it. -/
  | tooLarge
deriving DecidableEq

/-- A fault of a note. -/
inductive NoteFault where
  /-- What is given names no pitch. -/
  | unknownPitch (given : Value)
  /-- What is given is no fraction. -/
  | invalidFraction (given : Value) (why : Refusal)
  /-- What is given is no tempo. -/
  | invalidTempo (given : Value) (why : Refusal)

namespace NoteFault

/-- The value that the fault is about. -/
def given : NoteFault → Value
  | .unknownPitch value => value
  | .invalidFraction value _ => value
  | .invalidTempo value _ => value

/-- The words for a fault. -/
def message : NoteFault → String
  | .unknownPitch given => "Unknown pitch " ++ given.literal ++ ", expected [a-g][#]?[0-8]"
  | .invalidFraction given _ =>
    "Invalid fraction " ++ given.literal ++ ", expected a whole number >= 1"
  | .invalidTempo given _ =>
    "Invalid tempo " ++ given.literal ++ ", expected a whole number of BPM >= 1"

end NoteFault

end Ringtone
