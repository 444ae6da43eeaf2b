import Ringtone.Number.Decimal
import Ringtone.Text.Blank
import Ringtone.Text.Digit

/-!
# Whole numbers as text

Whole numbers have no bound of their own, but none of more than `numeralLimit` digits is read from
text or written as text.
-/

namespace Ringtone.Number

open Ringtone.Text

/-- The greatest number of decimal digits of a numeral, read or written. -/
def numeralLimit : Nat := 4300

/-- Whether a whole number has few enough digits to be written. -/
def isWritable (n : Int) : Bool := n.natAbs < Nat.pow 10 numeralLimit

/-- The numeral of a whole number. -/
def numeral (n : Int) : String :=
  String.ofList (if n < 0 then '-' :: decimalDigits n.natAbs else decimalDigits n.natAbs)

/-- The values of a run of digits, in which single underscores may stand between two digits. -/
def groupedDigits? : List Char → Option (List Nat)
  | [] => none
  | [c] => (digitValue? c).map ([·])
  | c :: '_' :: rest => do return (← digitValue? c) :: (← groupedDigits? rest)
  | c :: rest => do return (← digitValue? c) :: (← groupedDigits? rest)

/-- Whether a character may surround a numeral: a blank, but no ASCII separator. -/
def isPadding (c : Char) : Bool := isBlank c && !(0x1C ≤ c.toNat && c.toNat ≤ 0x1F)

/-- A text without the padding around it. -/
def trim (text : List Char) : List Char :=
  ((text.dropWhile isPadding).reverse.dropWhile isPadding).reverse

/-- The number without a sign that a text denotes. -/
def readNat? (text : List Char) : Option Nat := do
  let digits ← groupedDigits? text
  if numeralLimit < digits.length then none
  else some (digits.foldl (fun n digit => 10 * n + digit) 0)

/-- The whole number that a text denotes: an optional sign and digits of any script, padded at
will. -/
def readInt? (text : List Char) : Option Int :=
  match trim text with
  | '-' :: rest => (readNat? rest).map fun n => -(n : Int)
  | '+' :: rest => (readNat? rest).map fun n => (n : Int)
  | rest => (readNat? rest).map fun n => (n : Int)

end Ringtone.Number
