import Ringtone.Number.Binary64

/-!
# Quantities

A quantity is a whole number of any size or a binary64 number. Whole numbers are computed with
exactly; where one meets a binary64 number it is rounded to one first, which fails when it is too
large for that.
-/

namespace Ringtone.Number

/-- A whole number or a binary64 number. -/
inductive Quantity where
  /-- A whole number. -/
  | whole (n : Int)
  /-- A binary64 number. -/
  | real (x : Binary64)
deriving DecidableEq

/-- Why there is no number to give. -/
inductive NumberFault where
  /-- A number is beyond the range of the format, or infinite where a whole number is needed. -/
  | tooLarge
  /-- A value that is not a number, where a whole number is needed. -/
  | notANumber
deriving DecidableEq

namespace Binary64

/-- The whole number before the point. -/
def truncate? : Binary64 → Except NumberFault Int
  | .finite value => .ok (Number.truncate value)
  | .negativeZero => .ok 0
  | .infinite _ => .error .tooLarge
  | .nan => .error .notANumber

/-- The greatest whole number that is not above. -/
def floor? : Binary64 → Except NumberFault Int
  | .finite value => .ok value.floor
  | .negativeZero => .ok 0
  | .infinite _ => .error .tooLarge
  | .nan => .error .notANumber

end Binary64

namespace Quantity

/-- The quantity as a binary64 number. -/
def toReal : Quantity → Except NumberFault Binary64
  | .whole n =>
    match Binary64.ofInt? n with
    | some x => .ok x
    | none => .error .tooLarge
  | .real x => .ok x

/-- Whether the quantity is below zero. -/
def isNegative : Quantity → Bool
  | .whole n => n < 0
  | .real x => x.lt (.finite 0)

/-- The product. -/
def mul : Quantity → Quantity → Except NumberFault Quantity
  | .whole m, .whole n => .ok (.whole (m * n))
  | x, y => do return .real ((← x.toReal).mul (← y.toReal))

/-- The difference. -/
def sub : Quantity → Quantity → Except NumberFault Quantity
  | .whole m, .whole n => .ok (.whole (m - n))
  | x, y => do return .real ((← x.toReal).sub (← y.toReal))

/-- The binary64 number nearest to the quotient by a whole number above zero. A quotient of whole
numbers is rounded once. -/
def divNat (x : Quantity) (divisor : Nat) : Except NumberFault Binary64 :=
  match x with
  | .whole n =>
    match Binary64.ofRat ((n : Rat) / divisor) with
    | .infinite _ => .error .tooLarge
    | quotient => .ok quotient
  | .real y => .ok (y.divPos divisor)

/-- The quantity itself, or the whole number zero when it is below zero. -/
def orZero (x : Quantity) : Quantity := if x.isNegative then .whole 0 else x

end Quantity

end Ringtone.Number
