/-!
# Blank characters

What separates the notes of a score: the 29 characters that Unicode calls spaces or separators by
their bidirectional class or category, the ASCII separators `0x1C` to `0x1F` among them.
-/

namespace Ringtone.Text

/-- The code points of the blank characters. -/
def blanks : List Nat :=
  [0x9, 0xA, 0xB, 0xC, 0xD, 0x1C, 0x1D, 0x1E, 0x1F, 0x20, 0x85, 0xA0, 0x1680, 0x2000, 0x2001,
   0x2002, 0x2003, 0x2004, 0x2005, 0x2006, 0x2007, 0x2008, 0x2009, 0x200A, 0x2028, 0x2029, 0x202F,
   0x205F, 0x3000]

/-- Whether the character is blank. -/
def isBlank (c : Char) : Bool := blanks.contains c.toNat

example : blanks.length = 29 := by decide

end Ringtone.Text
