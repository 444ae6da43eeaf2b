/-!
# Texts as code points

A text is a sequence of code points. A code point is the number of a character or a surrogate, which
is the number of none: two surrogates, a high and a low one, are the halves of a character beyond
the first 65536 where a text is written in units of sixteen bits. A sequence of code points may hold
surrogates, also a high one and a low one behind it, and is then another text than the one that
holds the character.
-/

namespace Ringtone.Text

/-- A code point: a number of 21 bits that is not above the last character's. -/
abbrev Point := Fin 0x110000

namespace Point

/-- The code point of a number that is one. -/
def ofNat (n : Nat) : Point := Fin.ofNat _ n

/-- The code point of a character. -/
def ofChar (c : Char) : Point :=
  ⟨c.toNat, by rcases c.valid with h | h <;> simp only [Char.toNat] <;> omega⟩

/-- Whether a point is the high half of a pair. -/
def isHigh (point : Point) : Bool := 0xD800 ≤ point.val && point.val < 0xDC00

/-- Whether a point is the low half of a pair. -/
def isLow (point : Point) : Bool := 0xDC00 ≤ point.val && point.val < 0xE000

/-- The high half of a point beyond sixteen bits. -/
def highHalf (point : Point) : Point := ofNat (0xD800 + (point.val - 0x10000) / 0x400)

/-- The low half of a point beyond sixteen bits. -/
def lowHalf (point : Point) : Point := ofNat (0xDC00 + (point.val - 0x10000) % 0x400)

/-- The point of a pair. -/
def join (high low : Point) : Point :=
  ofNat (0x10000 + (high.val - 0xD800) * 0x400 + (low.val - 0xDC00))

/-- The character of a point; a surrogate has none. -/
def toChar? (point : Point) : Option Char :=
  if point.isHigh || point.isLow then none else some (Char.ofNat point.val)

end Point

/-- The last `width` hexadecimal digits of a number. -/
def hexDigits : (width : Nat) → Nat → List Char
  | 0, _ => []
  | width + 1, n => hexDigits width (n / 16) ++ [Nat.digitChar (n % 16)]

/-- A number of sixteen bits as an escape. -/
def numbered (n : Nat) : List Char := '\\' :: 'u' :: hexDigits 4 n

/-- A text as a sequence of code points. -/
abbrev Points := List Point

namespace Points

/-- The code points of some characters. -/
def ofChars (text : List Char) : Points := text.map Point.ofChar

/-- The code points of a string. -/
def ofString (text : String) : Points := ofChars text.toList

/-- The characters of a text without surrogates. -/
def toChars? (text : Points) : Option (List Char) := text.mapM Point.toChar?

/-- The characters that show a text: its own, and for a surrogate the escape of its number. -/
def toChars (text : Points) : List Char :=
  text.flatMap fun point => match point.toChar? with
    | some c => [c]
    | none => numbered point.val

end Points

end Ringtone.Text
