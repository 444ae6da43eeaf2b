import Ringtone.Value

/-!
# Writing JSON

A value on one line, with a blank after every comma and colon, or indented with one item or member
to a line. Everything but printable ASCII is written by numbered escapes, a code point beyond
sixteen bits by those of its two halves, so the text is ASCII.
-/

namespace Ringtone.Json

open Number Text

/-- How a value is laid out. -/
inductive Layout where
  /-- On one line. -/
  | line
  /-- Every item and member on a line of its own, two blanks further in than what holds it. -/
  | indented
deriving DecidableEq

/-- A code point of a string. -/
def pointText (point : Point) : List Char :=
  let n := point.val
  if n = '"'.toNat then ['\\', '"']
  else if n = '\\'.toNat then ['\\', '\\']
  else if n = '\n'.toNat then ['\\', 'n']
  else if n = '\r'.toNat then ['\\', 'r']
  else if n = '\t'.toNat then ['\\', 't']
  else if n = 0x08 then ['\\', 'b']
  else if n = 0x0C then ['\\', 'f']
  else if 0x20 ≤ n ∧ n < 0x7F then [Char.ofNat n]
  else if n < 0x10000 then numbered n
  else numbered point.highHalf.val ++ numbered point.lowHalf.val

/-- A string. -/
def stringText (text : Points) : List Char := '"' :: (text.flatMap pointText ++ ['"'])

/-- A binary64 number. -/
def realText : Binary64 → List Char
  | .nan => "NaN".toList
  | .infinite negative => if negative then "-Infinity".toList else "Infinity".toList
  | x => x.text.toList

/-- What goes before an item or member at a depth, and before the bracket that ends it. -/
def breakTo (layout : Layout) (depth : Nat) : List Char :=
  match layout with
  | .line => []
  | .indented => '\n' :: List.replicate (2 * depth) ' '

/-- What goes between two items or members at a depth. -/
def separator (layout : Layout) (depth : Nat) : List Char :=
  match layout with
  | .line => [',', ' ']
  | .indented => ',' :: breakTo layout depth

mutual

/-- A value at a depth. -/
def print (layout : Layout) (depth : Nat) : Value → List Char
  | .null => "null".toList
  | .bool b => if b then "true".toList else "false".toList
  | .int n => (numeral n).toList
  | .real x => realText x
  | .text s => stringText s
  | .list [] => ['[', ']']
  | .list (item :: rest) =>
    '[' :: (breakTo layout (depth + 1) ++ print layout (depth + 1) item
      ++ printItems layout (depth + 1) rest ++ breakTo layout depth ++ [']'])
  | .object [] => ['{', '}']
  | .object ((name, value) :: rest) =>
    '{' :: (breakTo layout (depth + 1) ++ stringText name ++ [':', ' ']
      ++ print layout (depth + 1) value
      ++ printMembers layout (depth + 1) rest ++ breakTo layout depth ++ ['}'])

/-- Further items at a depth. -/
def printItems (layout : Layout) (depth : Nat) : List Value → List Char
  | [] => []
  | item :: rest =>
    separator layout depth ++ print layout depth item ++ printItems layout depth rest

/-- Further members at a depth. -/
def printMembers (layout : Layout) (depth : Nat) : List (Points × Value) → List Char
  | [] => []
  | (name, value) :: rest =>
    separator layout depth ++ stringText name ++ [':', ' '] ++ print layout depth value
      ++ printMembers layout depth rest

end

/-- A value on one line. -/
def line (value : Value) : String := String.ofList (print .line 0 value)

/-- A value, indented. -/
def indented (value : Value) : List Char := print .indented 0 value

end Ringtone.Json
