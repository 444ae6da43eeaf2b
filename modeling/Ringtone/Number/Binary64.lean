import Ringtone.Number.Rounding

/-!
# Binary64 numbers

A number of the binary64 format is a rational number on the grid of `Ringtone.Number.Rounding`, the
negative zero, an infinity, or not a number at all. The value is kept as a rational number and not
as a word of bits, so that every operation is what the format says it is: the exact result,
rounded to the nearest number of the format, ties to even, with results of magnitude `2 ^ 1024`
after rounding becoming infinite.
-/

namespace Ringtone.Number

/-- A number of the binary64 format. -/
inductive Binary64 where
  /-- A number of the grid; zero here is the positive zero. -/
  | finite (value : Rat)
  /-- Zero with a minus sign. -/
  | negativeZero
  /-- An infinity and its sign. -/
  | infinite (negative : Bool)
  /-- Not a number. -/
  | nan
deriving DecidableEq

namespace Binary64

/-- A result of this magnitude is infinite. -/
def overflow : Rat := pow2 1024

/-- The binary64 number nearest to `x`. A negative number too small for the grid becomes the
negative zero. -/
def ofRat (x : Rat) : Binary64 :=
  let rounded := nearest x
  if rounded = 0 then (if x < 0 then .negativeZero else .finite 0)
  else if overflow ≤ rounded then .infinite false
  else if rounded ≤ -overflow then .infinite true
  else .finite rounded

/-- The value of the binary64 number nearest to a whole number, unless that is infinite. -/
def gridValue? (n : Int) : Option Rat :=
  let rounded := nearest n
  if overflow ≤ rounded ∨ rounded ≤ -overflow then none else some rounded

/-- The binary64 number nearest to a whole number, unless that is infinite. -/
def ofInt? (n : Int) : Option Binary64 := (gridValue? n).map .finite

/-- The value of a number that has one. -/
def toRat? : Binary64 → Option Rat
  | .finite value => some value
  | .negativeZero => some 0
  | _ => none

/-- Whether the number carries a minus sign. -/
def isNegative : Binary64 → Bool
  | .finite value => value < 0
  | .negativeZero => true
  | .infinite negative => negative
  | .nan => false

/-- Zero with a given sign. -/
def zero (negative : Bool) : Binary64 := if negative then .negativeZero else .finite 0

/-- The number with its sign turned round. -/
def neg : Binary64 → Binary64
  | .finite value => if value = 0 then .negativeZero else .finite (-value)
  | .negativeZero => .finite 0
  | .infinite negative => .infinite (!negative)
  | .nan => .nan

/-- The sum. Two zeros, or two numbers that cancel, give the positive zero unless both are the
negative one; opposite infinities give no number. -/
def add : Binary64 → Binary64 → Binary64
  | .nan, _ | _, .nan => .nan
  | .infinite s, .infinite t => if s = t then .infinite s else .nan
  | .infinite s, _ | _, .infinite s => .infinite s
  | .negativeZero, .negativeZero => .negativeZero
  | .negativeZero, .finite y => .finite y
  | .finite x, .negativeZero => .finite x
  | .finite x, .finite y => ofRat (x + y)

/-- The difference. -/
def sub (x y : Binary64) : Binary64 := add x (neg y)

/-- The product. Its sign is that of the factors, also when it is zero; zero times infinity is no
number. -/
def mul (x y : Binary64) : Binary64 :=
  let negative := x.isNegative != y.isNegative
  match x.toRat?, y.toRat? with
  | some a, some b => if a = 0 ∨ b = 0 then zero negative else ofRat (a * b)
  | some a, none => if y = .nan ∨ a = 0 then .nan else .infinite negative
  | none, some b => if x = .nan ∨ b = 0 then .nan else .infinite negative
  | none, none => if x = .nan ∨ y = .nan then .nan else .infinite negative

/-- The quotient by a rational number that is above zero. -/
def divPos (x : Binary64) (divisor : Rat) : Binary64 :=
  match x with
  | .finite value => if value = 0 then .finite 0 else ofRat (value / divisor)
  | y => y

/-- Whether `x` is below `y`; nothing is below or above a value that is not a number. -/
def lt : Binary64 → Binary64 → Bool
  | .nan, _ | _, .nan => false
  | .infinite s, .infinite t => s && !t
  | .infinite s, _ => s
  | _, .infinite t => !t
  | .negativeZero, .negativeZero => false
  | .negativeZero, .finite y => 0 < y
  | .finite x, .negativeZero => x < 0
  | .finite x, .finite y => x < y

/-! ## Words of 64 bits -/

/-- The number of fractions, which fill 52 bits. -/
def fractionCount : Nat := 0x10000000000000

/-- The number of exponents, which fill eleven bits. -/
def exponentCount : Nat := 0x800

/-- The word of the minus sign. -/
def signWord : Nat := fractionCount * exponentCount

/-- The word of the positive infinity: the last exponent. With a fraction it is not a number. -/
def infinityWord : Nat := fractionCount * (exponentCount - 1)

/-- The word that stores the number: sign, eleven bits of exponent, 52 bits of fraction. -/
def toBits : Binary64 → UInt64
  | .finite value =>
    let place := lastPlace value
    let digits := (magnitude value / pow2 place).num.natAbs
    let word := (place - lowestPlace).toNat * fractionCount + digits
    UInt64.ofNat (if value < 0 then signWord + word else word)
  | .negativeZero => UInt64.ofNat signWord
  | .infinite negative => UInt64.ofNat (if negative then signWord + infinityWord else infinityWord)
  | .nan => UInt64.ofNat (infinityWord + fractionCount / 2)

/-- The number that a word stores. -/
def ofBits (bits : UInt64) : Binary64 :=
  let word := bits.toNat
  let negative := signWord ≤ word
  let exponent : Nat := word / fractionCount % exponentCount
  let fraction : Nat := word % fractionCount
  if exponent + 1 = exponentCount then (if fraction = 0 then .infinite negative else .nan)
  else if exponent = 0 ∧ fraction = 0 then zero negative
  else
    let value : Rat :=
      if exponent = 0 then (fraction : Rat) * pow2 lowestPlace
      else ((fractionCount + fraction : Nat) : Rat) * pow2 (lowestPlace + exponent - 1)
    .finite (if negative then -value else value)

/-- The number as the machine's own float. -/
def toFloat (x : Binary64) : Float := Float.ofBits x.toBits

/-- The value of a machine float. -/
def ofFloat (x : Float) : Binary64 := ofBits x.toBits

end Binary64

end Ringtone.Number
