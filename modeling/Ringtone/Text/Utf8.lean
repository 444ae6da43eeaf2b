/-!
# UTF-8

Reading bytes as UTF-8 text. A character is a lead byte and the continuation bytes it asks for; the
first continuation byte is further restricted after the leads `E0`, `ED`, `F0` and `F4`, so that
every character has one form only and surrogates have none. A fault names the bytes that had been
accepted as a character's beginning when the reading stopped.
-/

namespace Ringtone.Text.Utf8

/-- Why bytes are not UTF-8. -/
inductive Reason where
  /-- A byte that begins no character. -/
  | start
  /-- A byte that does not continue the character before it. -/
  | continuation
  /-- The bytes end within a character. -/
  | ending
deriving DecidableEq

/-- A stretch of bytes that is not UTF-8. -/
structure Fault where
  /-- The position of the first byte. -/
  position : Nat
  /-- The number of bytes. -/
  length : Nat
  /-- The first byte. -/
  byte : Nat
  /-- What is wrong. -/
  reason : Reason
deriving DecidableEq

/-- The words for a reason. -/
def Reason.text : Reason → String
  | .start => "invalid start byte"
  | .continuation => "invalid continuation byte"
  | .ending => "unexpected end of data"

/-- Whether a byte can continue a character. -/
def isContinuation (byte : Nat) : Bool := 0x80 ≤ byte && byte < 0xC0

/-- Whether a byte can come second after a given lead of three or four bytes. -/
def isSecond (lead byte : Nat) : Bool :=
  isContinuation byte &&
    (if lead = 0xE0 then 0xA0 ≤ byte
     else if lead = 0xED then byte < 0xA0
     else if lead = 0xF0 then 0x90 ≤ byte
     else if lead = 0xF4 then byte < 0x90
     else true)

/-- The characters of some bytes that begin at `position`. -/
def decodeFrom (position : Nat) : List UInt8 → Except Fault (List Char)
  | [] => .ok []
  | first :: rest =>
    let lead := first.toNat
    let fault (length : Nat) (reason : Reason) : Except Fault (List Char) :=
      .error { position, length, byte := lead, reason }
    if lead < 0x80 then (decodeFrom (position + 1) rest).map (Char.ofNat lead :: ·)
    else if lead < 0xC2 ∨ 0xF5 ≤ lead then fault 1 .start
    else match rest with
    | [] => fault 1 .ending
    | second :: rest =>
      let b := second.toNat
      if lead < 0xE0 then
        if isContinuation b then
          (decodeFrom (position + 2) rest).map
            (Char.ofNat (lead % 0x20 * 0x40 + b % 0x40) :: ·)
        else fault 1 .continuation
      else if !isSecond lead b then fault 1 .continuation
      else match rest with
      | [] => fault 2 .ending
      | third :: rest =>
        let c := third.toNat
        if !isContinuation c then fault 2 .continuation
        else if lead < 0xF0 then
          (decodeFrom (position + 3) rest).map
            (Char.ofNat ((lead % 0x10 * 0x40 + b % 0x40) * 0x40 + c % 0x40) :: ·)
        else match rest with
        | [] => fault 3 .ending
        | fourth :: rest =>
          let d := fourth.toNat
          if !isContinuation d then fault 3 .continuation
          else
            (decodeFrom (position + 4) rest).map
              (Char.ofNat (((lead % 8 * 0x40 + b % 0x40) * 0x40 + c % 0x40) * 0x40 + d % 0x40) :: ·)

/-- The characters of some bytes. -/
def decode (bytes : List UInt8) : Except Fault (List Char) := decodeFrom 0 bytes

/-- The bytes of some characters. -/
def encode (text : List Char) : List UInt8 := text.flatMap String.utf8EncodeChar

end Ringtone.Text.Utf8
