import Ringtone.Number.Binary64

/-!
# Decimal notation of binary64 numbers

Reading goes through the exact value: a decimal is `digits * 10 ^ exponent`, and its number is the
binary64 number nearest to that. Writing looks for the shortest decimal that reads back: on the
grid of one digit, then of two, and so on, the two points around the number are tried, and the
first grid with a point that reads back gives the digits. Seventeen digits always do.
-/

namespace Ringtone.Number

/-- The power of ten with exponent `k`. -/
def pow10 (k : Int) : Rat := (10 : Rat) ^ k

/-- The decimal digits of a number, the most significant first. -/
def decimalDigits (n : Nat) : List Char := Nat.toDigits 10 n

/-- The number that a run of decimal digits denotes. Other characters have no business here. -/
def ofDecimalDigits (digits : List Char) : Nat :=
  digits.foldl (fun n c => 10 * n + (c.toNat - '0'.toNat)) 0

/-- A number in decimal notation, `digits * 10 ^ exponent` with a sign. -/
structure Decimal where
  /-- Whether there is a minus sign. -/
  negative : Bool := false
  /-- The digits, read as a whole number. -/
  digits : Nat
  /-- The power of ten that the digits count. -/
  exponent : Int
deriving DecidableEq

namespace Decimal

/-- The nearest binary64 number. Decimals far outside the range of the format are told by their
length alone, so that their powers of ten are never computed. -/
def toBinary64 (d : Decimal) : Binary64 :=
  let size := ((decimalDigits d.digits).length : Int) + d.exponent
  if d.digits = 0 then .zero d.negative
  else if 310 < size then .infinite d.negative
  else if size < -330 then .zero d.negative
  else
    let value := (d.digits : Rat) * pow10 d.exponent
    .ofRat (if d.negative then -value else value)

/-- The exponent of the greatest power of ten that is at most `x`, for `x` above zero. -/
def exponentOf (x : Rat) : Int :=
  let guess :=
    ((decimalDigits x.num.natAbs).length : Int) - ((decimalDigits x.den).length : Int)
  if pow10 guess ≤ x then guess else guess - 1

/-- The points around `x` on the grid with `count` significant digits, the nearer one first; when
both are equally near, the one with the even digit. -/
def neighbours (x : Rat) (count : Nat) : List Decimal :=
  let exponent := exponentOf x + 1 - count
  let scaled := x / pow10 exponent
  let below := scaled.floor
  let lower : Decimal := { digits := below.toNat, exponent }
  let upper : Decimal := { digits := below.toNat + 1, exponent }
  if roundEven scaled = below then [lower, upper] else [upper, lower]

/-- The shortest decimal that reads back as `x`, for a grid number `x` above zero; of two with
equally many digits the nearer one, and of two equally near the one that ends in an even digit. -/
def shortest (x : Rat) : Decimal :=
  let candidates := (List.range 17).flatMap fun n => neighbours x (n + 1)
  (candidates.find? fun d => d.toBinary64 = .finite x).getD { digits := 0, exponent := 0 }

end Decimal

/-! ## Text -/

/-- Digits with a point after the first `whole` of them, zeros being added on either side. -/
def placePoint (digits : List Char) (whole : Int) : List Char :=
  if whole ≤ 0 then '0' :: '.' :: (List.replicate (-whole).toNat '0' ++ digits)
  else if (digits.length : Int) ≤ whole then
    digits ++ List.replicate (whole.toNat - digits.length) '0' ++ ['.', '0']
  else digits.take whole.toNat ++ '.' :: digits.drop whole.toNat

/-- The exponent part of scientific notation: a sign and at least two digits. -/
def exponentText (exponent : Int) : List Char :=
  let digits := decimalDigits exponent.natAbs
  let padded := if digits.length < 2 then '0' :: digits else digits
  'e' :: (if exponent < 0 then '-' else '+') :: padded

/-- A decimal above zero, written out: positional from `1e-4` up to below `1e16`, with a point in
any case, and scientific outside of that. -/
def Decimal.text (d : Decimal) : List Char :=
  let all := decimalDigits d.digits
  let digits := (all.reverse.dropWhile (· = '0')).reverse
  let exponent := (all.length : Int) + d.exponent - 1
  if -4 ≤ exponent ∧ exponent < 16 then placePoint digits (exponent + 1)
  else
    let mantissa := match digits with
      | first :: second :: rest => first :: '.' :: second :: rest
      | short => short
    mantissa ++ exponentText exponent

/-- The shortest text that reads back as the number. -/
def Binary64.text : Binary64 → String
  | .finite value =>
    if value = 0 then "0.0"
    else
      let digits := String.ofList (Decimal.shortest (magnitude value)).text
      if value < 0 then "-" ++ digits else digits
  | .negativeZero => "-0.0"
  | .infinite negative => if negative then "-inf" else "inf"
  | .nan => "nan"

end Ringtone.Number
