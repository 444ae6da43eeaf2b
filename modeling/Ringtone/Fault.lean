import Ringtone.Files.Fault
import Ringtone.Note.Fault
import Ringtone.Number.Quantity
import Ringtone.Text.Utf8

/-!
# Faults

Everything that can stop an operation, by its cause. The wording stands in `Fault.message` alone.
-/

namespace Ringtone

open Number

/-- The form of a note, as messages describe it. -/
def noteFormat : String :=
  "[fraction][a-g in lowercase][optional # for sharp notes][octave from 0 to 8]"

/-- What stops an operation. -/
inductive Fault where
  /-- A fault of a note, a pitch, a fraction or a tempo. -/
  | note (fault : NoteFault)
  /-- A note of a score is not valid. -/
  | badNote (token : List Char) (cause : NoteFault)
  /-- A score is not valid because of a note; for callers that ask for no detail. -/
  | badScore (token : List Char) (cause : NoteFault)
  /-- What is given is no tuning. -/
  | invalidTuning (given : Value)
  /-- No style has this name. -/
  | unknownStyle (given : Value)
  /-- A gap is below zero. -/
  | negativeGap (given : Value)
  /-- A number could not be had. -/
  | number (fault : NumberFault)
  /-- A value is of a kind that the operation does not take. -/
  | wrongKind
  /-- Something is asked of a value that values of its kind do not have. -/
  | noAttribute
  /-- A pair is needed and a longer sequence is given. -/
  | longPair
  /-- A pair is needed and a shorter sequence is given. -/
  | shortPair (length : Nat)
  /-- A number of samples is below zero. -/
  | negativeLength
  /-- A number of samples is beyond the address space. -/
  | lengthTooLarge
  /-- A silence is longer than the address space. -/
  | silenceTooLarge
  /-- The bytes of so many samples are beyond the address space. -/
  | samplesTooLarge
  /-- No memory holds so many samples. -/
  | outOfMemory
  /-- A fade of one length is laid over a stretch of another length. -/
  | fadeMismatch (fade stretch : Nat)
  /-- A number does not fit its field of the file header. -/
  | headerField
  /-- There are more samples than the file header can count. -/
  | fileTooLarge
  /-- A whole number has too many digits to be written. -/
  | unwritableNumeral
  /-- A numeral has too many digits to be read. -/
  | unreadableNumeral (digits : Nat)
  /-- Bytes are not UTF-8. -/
  | encoding (fault : Text.Utf8.Fault)
  /-- Surrogates, which UTF-8 has no bytes for: where they stand in a text, how many there are on
  end, and the first one. -/
  | unencodable (position length : Nat) (first : Text.Point)
  /-- Values are nested too deeply. -/
  | nesting
  /-- A path holds the character that ends paths. -/
  | pathTerminator
  /-- A file operation failed. -/
  | file (fault : Files.Fault)

/-- The words for a numeral beyond the limit, with what is known of its length. -/
def numeralLimitMessage (detail : String) : String :=
  "Exceeds the limit (" ++ numeral numeralLimit ++ " digits) for integer string conversion"
    ++ detail ++ "; use sys.set_int_max_str_digits() to increase the limit"

/-- The words for an invalid note. -/
def badNoteMessage (token : List Char) (cause : NoteFault) : String :=
  String.ofList token ++ " is an invalid note. Remember the format: " ++ noteFormat ++ " ("
    ++ cause.message ++ ")"

/-- The words for bytes that are not UTF-8. -/
def Text.Utf8.Fault.message (fault : Text.Utf8.Fault) : String :=
  let place :=
    if fault.length = 1 then
      "byte 0x" ++ String.ofList (Text.hexDigits 2 fault.byte) ++ " in position "
        ++ numeral fault.position
    else
      "bytes in position " ++ numeral fault.position ++ "-"
        ++ numeral (fault.position + fault.length - 1)
  "'utf-8' codec can't decode " ++ place ++ ": " ++ fault.reason.text

/-- The words for surrogates in a text that is to be UTF-8. -/
def unencodableMessage (position length : Nat) (first : Text.Point) : String :=
  let place :=
    if length = 1 then
      "character '" ++ String.ofList (Text.numbered first.val) ++ "' in position "
        ++ numeral position
    else
      "characters in position " ++ numeral position ++ "-" ++ numeral (position + length - 1)
  "'utf-8' codec can't encode " ++ place ++ ": surrogates not allowed"

namespace Fault

/-- The fault that it is not to be able to write a value. -/
def ofObstacle : Value.Obstacle → Fault
  | .numeral => .unwritableNumeral
  | .nesting => .nesting

/-- A fault about a value whose parts may lie so many levels below it, unless the value cannot be
written: then that is the fault. -/
def aboutWithin (levels : Nat) (fault : Fault) (given : Value) : Fault :=
  match given.obstacle? levels with
  | none => fault
  | some obstacle => ofObstacle obstacle

/-- A fault of a note, about the value it was given. -/
def ofNoteWithin (levels : Nat) (fault : NoteFault) : Fault :=
  aboutWithin levels (.note fault) fault.given

/-- A fault of a note where the program has its usual room. -/
def ofNote (fault : NoteFault) : Fault := ofNoteWithin Value.levelLimit fault

/-- A fault about a value where the program has its usual room. -/
def about (fault : Value → Fault) (given : Value) : Fault :=
  aboutWithin Value.levelLimit (fault given) given

/-- The words for a fault; those that only their kind tells have none. -/
def message? : Fault → Option String
  | .note fault => some fault.message
  | .badNote token cause => some (badNoteMessage token cause)
  | .badScore token cause => some (badNoteMessage token cause)
  | .invalidTuning given =>
    some ("A4 frequency must be a positive whole number of Hz, got " ++ given.literal)
  | .unknownStyle given =>
    some ("Unknown style '" ++ given.shown ++ "'. Use one of: sine, square, bell")
  | .negativeGap given => some ("gap_ms must not be negative, got " ++ given.shown)
  | .number .notANumber => some "cannot convert float NaN to integer"
  | .longPair => some "too many values to unpack (expected 2)"
  | .shortPair length =>
    some ("not enough values to unpack (expected 2, got " ++ numeral length ++ ")")
  | .negativeLength => some "negative dimensions are not allowed"
  | .lengthTooLarge => some "Maximum allowed size exceeded"
  | .silenceTooLarge => some "Maximum allowed dimension exceeded"
  | .samplesTooLarge =>
    some ("array is too big; `arr.size * arr.dtype.itemsize` is larger than the maximum "
      ++ "possible size.")
  | .fadeMismatch fade stretch =>
    some ("could not broadcast input array from shape (" ++ numeral fade ++ ",) into shape ("
      ++ numeral stretch ++ ",)")
  | .fileTooLarge => some "Data exceeds wave file size limit"
  | .unwritableNumeral => some (numeralLimitMessage "")
  | .unreadableNumeral digits =>
    some (numeralLimitMessage (": value has " ++ numeral digits ++ " digits"))
  | .encoding fault => some fault.message
  | .unencodable position length first => some (unencodableMessage position length first)
  | .pathTerminator => some "embedded null byte"
  | .number .tooLarge | .wrongKind | .noAttribute | .outOfMemory | .headerField | .nesting
  | .file _ => none

end Fault

end Ringtone
