import Ringtone.Fault

/-!
# Durations

A note is a fraction of a whole note, and a whole note lasts four beats. A tempo counts quarter
beats per minute, so that at 240 of them a whole note lasts one second.
-/

namespace Ringtone

open Number

/-- The whole number above zero that a value is. Truth values are no numbers here. -/
def Value.positive? : Value → Option { n : Nat // 0 < n }
  | .int n => if h : 0 < n.toNat then some ⟨n.toNat, h⟩ else none
  | _ => none

/-- The part of a whole note that a note lasts: one over this number. -/
structure Fraction where
  /-- The number. -/
  parts : Nat
  /-- It is above zero. -/
  parts_pos : 0 < parts
deriving DecidableEq

/-- A tempo, in quarter beats per minute. -/
structure Tempo where
  /-- The number of beats. -/
  beats : Nat
  /-- It is above zero. -/
  beats_pos : 0 < beats
deriving DecidableEq

/-- The fraction that a value is, where a message has so many levels of room. -/
def Fraction.ofValueWithin (levels : Nat) (value : Value) : Except Fault Fraction :=
  match value.positive? with
  | some ⟨parts, h⟩ => .ok ⟨parts, h⟩
  | none => .error (.ofNoteWithin levels (.invalidFraction value .notPositive))

/-- The tempo that a value is, where a message has so many levels of room. -/
def Tempo.ofValueWithin (levels : Nat) (value : Value) : Except Fault Tempo :=
  match value.positive? with
  | some ⟨beats, h⟩ => .ok ⟨beats, h⟩
  | none => .error (.ofNoteWithin levels (.invalidTempo value .notPositive))

/-- The tempo that a value is. -/
def Tempo.ofValue (value : Value) : Except Fault Tempo :=
  Tempo.ofValueWithin Value.levelLimit value

/-- The tempo at which a whole note lasts a second. -/
def secondTempo : Rat := 240

/-- The length of a note in milliseconds, from its fraction and the tempo as points of the grid:
seconds of a whole note, seconds of the note, milliseconds, each rounded, and what is before the
point of the last. -/
def lengthOnGrid (parts beats : Rat) : Int :=
  truncate (nearest (nearest (nearest (secondTempo / beats) / parts) * 1000))

/-- The length of a note in whole milliseconds. -/
def noteLength (fraction : Fraction) (tempo : Tempo) : Except Fault Nat :=
  match Binary64.gridValue? tempo.beats with
  | none => .error (.ofNote (.invalidTempo (.int tempo.beats) .tooLarge))
  | some beats =>
    match Binary64.gridValue? fraction.parts with
    | none => .error (.ofNote (.invalidFraction (.int fraction.parts) .tooLarge))
    | some parts => .ok (lengthOnGrid parts beats).toNat

/-- The length in milliseconds of the fraction that a value is, at the tempo that a value is. The
fraction is looked at first. -/
def durationWithin (levels : Nat) (fraction tempo : Value) : Except Fault Nat := do
  let fraction ← Fraction.ofValueWithin levels fraction
  let tempo ← Tempo.ofValueWithin levels tempo
  noteLength fraction tempo

/-- The length of a note where the program has its usual room for messages. -/
def durationOf (fraction tempo : Value) : Except Fault Nat :=
  durationWithin Value.levelLimit fraction tempo

end Ringtone
