import Ringtone.Value

/-!
# Tokens of a JSON text

A JSON text is a sequence of brackets, commas, colons and scalars with blanks between them. A token
is told by its first character; what begins no token, or a string that is not written as strings
are, is a token too, a broken one, and ends the sequence. Every token carries the number of
characters from its own first one to the end of the text, from which its position follows.

The escapes of a high and of a low surrogate on end are read as the one code point that they are the
halves of. No other two pieces of a string are joined.

Numbers are read as far as they go: a point without digits behind it, or an exponent without
digits, is not part of the number. Besides the numbers of the standard there are `NaN`, `Infinity`
and `-Infinity`.
-/

namespace Ringtone.Json

open Number Text

/-- Why a text is not JSON. -/
inductive Reason where
  /-- A value is due. -/
  | value
  /-- The name of a member is due. -/
  | name
  /-- A colon is due. -/
  | colon
  /-- A comma is due. -/
  | comma
  /-- The value is complete and something follows. -/
  | extra
  /-- A string does not end. -/
  | unterminated
  /-- A string holds a control character. -/
  | control
  /-- A backslash stands before a character that is not escaped so. -/
  | escape
  /-- A numbered escape lacks its four digits. -/
  | numberedEscape
  /-- The text begins with a byte order mark. -/
  | byteOrderMark
deriving DecidableEq

/-- A reason, and the number of characters from the fault to the end of the text. -/
structure Broken where
  /-- What is wrong. -/
  reason : Reason
  /-- The number of characters from there to the end. -/
  left : Nat
deriving DecidableEq

/-- A token. -/
inductive Token where
  /-- `[` -/
  | openList
  /-- `]` -/
  | closeList
  /-- `{` -/
  | openObject
  /-- `}` -/
  | closeObject
  /-- `,` -/
  | comma
  /-- `:` -/
  | colon
  /-- A string. -/
  | string (text : Points)
  /-- A scalar that is no string. -/
  | scalar (value : Value)
  /-- A whole number with too many digits. -/
  | longNumeral (digits : Nat)
  /-- A string that is not written as strings are. -/
  | brokenString (fault : Broken)
  /-- A character that begins no token. -/
  | unknown

/-- A token in its place. -/
structure Placed where
  /-- The token. -/
  token : Token
  /-- The number of characters from the token's first one to the end of the text. -/
  left : Nat

/-! ## Strings -/

/-- The value of a hexadecimal digit. -/
def hexValue? (c : Char) : Option Nat :=
  if '0' ≤ c ∧ c ≤ '9' then some (c.toNat - '0'.toNat)
  else if 'a' ≤ c ∧ c ≤ 'f' then some (c.toNat - 'a'.toNat + 10)
  else if 'A' ≤ c ∧ c ≤ 'F' then some (c.toNat - 'A'.toNat + 10)
  else none

/-- The code point that four hexadecimal digits denote. -/
def pointOfHex? (a b c d : Char) : Option Point := do
  return Point.ofNat ((((← hexValue? a) * 16 + (← hexValue? b)) * 16 + (← hexValue? c)) * 16
    + (← hexValue? d))

/-- The character that a letter after a backslash stands for. -/
def escaped? : Char → Option Char
  | '"' => some '"'
  | '\\' => some '\\'
  | '/' => some '/'
  | 'b' => some '\x08'
  | 'f' => some '\x0c'
  | 'n' => some '\n'
  | 'r' => some '\r'
  | 't' => some '\t'
  | _ => none

/-- A piece of a string: a character, or the escape of a number. -/
inductive Piece where
  /-- A character, which may be written by a letter behind a backslash. -/
  | plain (c : Char)
  /-- The escape of a number. -/
  | numbered (point : Point)

/-- The text of some pieces, numbered halves of a pair being joined. -/
def joinPieces : List Piece → Points
  | [] => []
  | .plain c :: rest => Point.ofChar c :: joinPieces rest
  | .numbered high :: .numbered low :: rest =>
    if high.isHigh && low.isLow then Point.join high low :: joinPieces rest
    else high :: joinPieces (.numbered low :: rest)
  | .numbered point :: rest => point :: joinPieces rest

/-- A string read so far, with one more piece before it. -/
def prepend (piece : Piece) (count : Nat) :
    Except Broken (List Piece × Nat) → Except Broken (List Piece × Nat) :=
  Except.map fun (pieces, length) => (piece :: pieces, count + length)

/-- Reads a string from behind its opening quote, which is `start` characters from the end of the
text: its pieces, and the number of characters up to and with the closing quote. -/
def scanPieces (start : Nat) : List Char → Except Broken (List Piece × Nat)
  | [] => .error ⟨.unterminated, start⟩
  | '"' :: _ => .ok ([], 1)
  | ['\\'] => .error ⟨.unterminated, start⟩
  | '\\' :: 'u' :: rest =>
    match rest with
    | a :: b :: c :: d :: next :: rest =>
      match pointOfHex? a b c d with
      | some point => prepend (.numbered point) 6 (scanPieces start (next :: rest))
      | none => .error ⟨.numberedEscape, rest.length + 6⟩
    | _ => .error ⟨.numberedEscape, rest.length + 1⟩
  | '\\' :: letter :: rest =>
    match escaped? letter with
    | some c => prepend (.plain c) 2 (scanPieces start rest)
    | none => .error ⟨.escape, rest.length + 2⟩
  | c :: rest =>
    if c.toNat < 0x20 then .error ⟨.control, rest.length + 1⟩
    else prepend (.plain c) 1 (scanPieces start rest)

/-- Reads a string from behind its opening quote: the text, and the number of characters up to and
with the closing quote. -/
def scanString (start : Nat) (rest : List Char) : Except Broken (Points × Nat) :=
  (scanPieces start rest).map fun (pieces, length) => (joinPieces pieces, length)

/-! ## Numbers -/

/-- The parts of a number as it is written. -/
structure NumberText where
  /-- Whether it begins with a minus sign. -/
  negative : Bool
  /-- The digits before the point. -/
  whole : List Char
  /-- The digits behind the point. -/
  places : List Char
  /-- The sign and the digits of the exponent. -/
  exponent : Option (Bool × List Char)
  /-- The number of characters. -/
  length : Nat

/-- The digits behind a point that begins a text. -/
def scanPlaces : List Char → List Char
  | '.' :: rest => rest.takeWhile isAsciiDigit
  | _ => []

/-- The exponent that begins a text, and its number of characters. -/
def scanExponent : List Char → Option (Bool × List Char × Nat)
  | mark :: rest =>
    if mark = 'e' ∨ mark = 'E' then
      let (negative, sign, digits) := match rest with
        | '-' :: rest => (true, 1, rest.takeWhile isAsciiDigit)
        | '+' :: rest => (false, 1, rest.takeWhile isAsciiDigit)
        | rest => (false, 0, rest.takeWhile isAsciiDigit)
      if digits = [] then none else some (negative, digits, 1 + sign + digits.length)
    else none
  | [] => none

/-- The number without a sign that begins a text. -/
def scanUnsigned (text : List Char) : Option NumberText :=
  let whole := match text with
    | '0' :: _ => ['0']
    | text => text.takeWhile isAsciiDigit
  if whole = [] then none
  else
    let rest := text.drop whole.length
    let places := scanPlaces rest
    let pointed := if places = [] then 0 else 1 + places.length
    let exponent := scanExponent (rest.drop pointed)
    some
      { negative := false
        whole
        places
        exponent := exponent.map fun (negative, digits, _) => (negative, digits)
        length := whole.length + pointed + (exponent.map (·.2.2)).getD 0 }

/-- The number that begins a text. -/
def scanNumber : List Char → Option NumberText
  | '-' :: rest =>
    (scanUnsigned rest).map fun n => { n with negative := true, length := n.length + 1 }
  | text => scanUnsigned text

/-- The decimal that a number is written as. -/
def NumberText.decimal (n : NumberText) : Decimal :=
  let exponent : Int := match n.exponent with
    | none => 0
    | some (negative, digits) =>
      if negative then -(ofDecimalDigits digits : Int) else ofDecimalDigits digits
  { negative := n.negative
    digits := ofDecimalDigits (n.whole ++ n.places)
    exponent := exponent - n.places.length }

/-- The token of a number: a whole number when it has neither point nor exponent. -/
def NumberText.token (n : NumberText) : Token :=
  if n.places = [] ∧ n.exponent = none then
    if numeralLimit < n.whole.length then .longNumeral n.whole.length
    else
      let size : Int := ofDecimalDigits n.whole
      .scalar (.int (if n.negative then -size else size))
  else .scalar (.real n.decimal.toBinary64)

/-! ## The sequence of tokens -/

/-- The words that are scalars. -/
def words : List (List Char × Value) :=
  [("null".toList, .null), ("true".toList, .bool true), ("false".toList, .bool false),
    ("NaN".toList, .real .nan), ("Infinity".toList, .real (.infinite false)),
    ("-Infinity".toList, .real (.infinite true))]

/-- The blanks of JSON. -/
def isSpace (c : Char) : Bool := c = ' ' || c = '\t' || c = '\n' || c = '\r'

/-- The token that begins with a character, and the number of further characters that it has. -/
def scan (first : Char) (rest : List Char) : Token × Nat :=
  match first with
  | '[' => (.openList, 0)
  | ']' => (.closeList, 0)
  | '{' => (.openObject, 0)
  | '}' => (.closeObject, 0)
  | ',' => (.comma, 0)
  | ':' => (.colon, 0)
  | '"' =>
    match scanString (rest.length + 1) rest with
    | .ok (text, length) => (.string text, length)
    | .error fault => (.brokenString fault, rest.length)
  | _ =>
    match words.find? fun (word, _) => word.isPrefixOf (first :: rest) with
    | some (word, value) => (.scalar value, word.length - 1)
    | none =>
      match scanNumber (first :: rest) with
      | some number => (number.token, number.length - 1)
      | none => (.unknown, rest.length)

/-- The tokens of a text. -/
def tokens : List Char → List Placed
  | [] => []
  | c :: rest =>
    if isSpace c then tokens rest
    else
      let (token, length) := scan c rest
      ⟨token, rest.length + 1⟩ :: tokens (rest.drop length)
termination_by text => text.length
decreasing_by
  · exact Nat.lt_succ_self _
  · exact Nat.lt_succ_of_le (List.length_drop ▸ Nat.sub_le _ _)

end Ringtone.Json
