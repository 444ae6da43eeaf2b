import Ringtone.Note

/-!
# Scores

A score is a text of notes with blanks between them. Compiling it gives the frequency and the
length of every note, in order, or the first note that is not valid.
-/

namespace Ringtone

open Number Text

/-- A note as it sounds. -/
structure Tone where
  /-- The frequency in Hertz. -/
  frequency : Int
  /-- The length in milliseconds. -/
  duration : Nat
deriving DecidableEq

namespace Score

/-- The tune that is built in. -/
def builtin : List Char :=
  "8e5 8d5 4f#4 4g#4 8c#5 8b4 4d4 4e4 8b4 8a4 4c#4 4e4 2a4".toList

/-- The text before the first blank, and the tokens behind it. -/
def split : List Char → List Char × List (List Char)
  | [] => ([], [])
  | c :: rest =>
    let (token, tokens) := split rest
    if isBlank c then ([], if token = [] then tokens else token :: tokens)
    else (c :: token, tokens)

/-- The notes of a score as they are written: the longest runs of characters that are not blank. -/
def tokens (score : List Char) : List (List Char) :=
  let (token, tokens) := split score
  if token = [] then tokens else token :: tokens

/-- The tone of a note under a tempo and a tuning. -/
def toneOf (tempo : Tempo) (tuning : Nat) (note : Note) : Except Fault Tone := do
  let frequency ← ofNumber (note.pitch.frequency (.whole tuning))
  let duration ← noteLength note.fraction tempo
  return { frequency, duration }

/-- A fault met within a token: one of the note comes with the token, any other stays. -/
def inToken (token : List Char) : Fault → Fault
  | .note cause => .badNote token cause
  | fault => fault

/-- The tone of a token. -/
def compileToken (tempo : Tempo) (tuning : Nat) (token : List Char) : Except Fault Tone :=
  ((Note.parse token).mapError Fault.ofNote >>= toneOf tempo tuning).mapError (inToken token)

/-- The tones of a score. -/
def compile (tempo : Tempo) (tuning : Nat) (score : List Char) : Except Fault (List Tone) :=
  (tokens score).mapM (compileToken tempo tuning)

/-- Whether compiling a score comes to looking a pitch up. -/
def namesPitch (score : List Char) : Bool :=
  match tokens score with
  | [] => false
  | token :: _ => (Note.readFraction (token.takeWhile isAsciiDigit)).isOk

end Score

end Ringtone
