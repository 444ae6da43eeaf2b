import Ringtone.Text.Printable
import Ringtone.Text.Points

/-!
# Quoted texts

How a message quotes a text: in single quotes, or in double ones when the text holds single quotes
and no double ones. The quote in use and the backslash are written after a backslash, and so are
line feed, carriage return and tab by their letters; what is not printable is written by the number
of its code point, in two, four or eight digits.
-/

namespace Ringtone.Text

/-- A code point by its number. -/
def numberedPoint (point : Nat) : List Char :=
  if point < 0x100 then '\\' :: 'x' :: hexDigits 2 point
  else if point < 0x10000 then numbered point
  else '\\' :: 'U' :: hexDigits 8 point

/-- A code point between quotes of one kind. -/
def quotedPoint (quote : Char) (point : Nat) : List Char :=
  if point = quote.toNat ∨ point = '\\'.toNat then ['\\', Char.ofNat point]
  else if point = '\n'.toNat then ['\\', 'n']
  else if point = '\r'.toNat then ['\\', 'r']
  else if point = '\t'.toNat then ['\\', 't']
  else if isPrintable point then [Char.ofNat point]
  else numberedPoint point

/-- The quotes for a text. -/
def quoteFor (points : List Nat) : Char :=
  if points.contains '\''.toNat && !points.contains '"'.toNat then '"' else '\''

/-- A text, given by its code points, in quotes. -/
def quotedPoints (points : List Nat) : List Char :=
  let quote := quoteFor points
  quote :: (points.flatMap (quotedPoint quote) ++ [quote])

/-- A text in quotes. -/
def quoted (text : List Char) : List Char := quotedPoints (text.map Char.toNat)

end Ringtone.Text
