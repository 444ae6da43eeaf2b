/-!
# Pitches

Nine octaves of twelve semitones. A pitch is named by its note and its octave, `c#4` for the C sharp
of the fourth octave; there is one name for each, since flats are not written. Pitches are counted
in semitones from the A of the fourth octave, whose frequency tunes all the others.
-/

namespace Ringtone

/-- The twelve notes of an octave, from the lowest. -/
inductive NoteName where
  /-- C. -/
  | c
  /-- C sharp. -/
  | cSharp
  /-- D. -/
  | d
  /-- D sharp. -/
  | dSharp
  /-- E. -/
  | e
  /-- F. -/
  | f
  /-- F sharp. -/
  | fSharp
  /-- G. -/
  | g
  /-- G sharp. -/
  | gSharp
  /-- A. -/
  | a
  /-- A sharp. -/
  | aSharp
  /-- B. -/
  | b
deriving DecidableEq

namespace NoteName

/-- The notes in rising order. -/
def all : List NoteName :=
  [.c, .cSharp, .d, .dSharp, .e, .f, .fSharp, .g, .gSharp, .a, .aSharp, .b]

/-- The note's letter, and a sharp sign where it has one. -/
def text : NoteName → List Char
  | .c => ['c']
  | .cSharp => ['c', '#']
  | .d => ['d']
  | .dSharp => ['d', '#']
  | .e => ['e']
  | .f => ['f']
  | .fSharp => ['f', '#']
  | .g => ['g']
  | .gSharp => ['g', '#']
  | .a => ['a']
  | .aSharp => ['a', '#']
  | .b => ['b']

/-- The number of semitones above the C of the octave. -/
def semitone : NoteName → Nat
  | .c => 0
  | .cSharp => 1
  | .d => 2
  | .dSharp => 3
  | .e => 4
  | .f => 5
  | .fSharp => 6
  | .g => 7
  | .gSharp => 8
  | .a => 9
  | .aSharp => 10
  | .b => 11

end NoteName

/-- A note of an octave. -/
structure Pitch where
  /-- The octave, counted from zero. -/
  octave : Fin 9
  /-- The note. -/
  name : NoteName
deriving DecidableEq

namespace Pitch

/-- All pitches in rising order. -/
def all : List Pitch :=
  (List.finRange 9).flatMap fun octave => NoteName.all.map fun name => { octave, name }

/-- The name of a pitch: the note and the digit of the octave. -/
def key (pitch : Pitch) : List Char := pitch.name.text ++ [Nat.digitChar pitch.octave]

/-- The distance of the lowest pitch from the A of the fourth octave, in semitones. -/
def lowest : Int := -57

/-- The distance from the A of the fourth octave, in semitones. -/
def offset (pitch : Pitch) : Int := 12 * (pitch.octave : Nat) + pitch.name.semitone + lowest

/-- The pitch of a name. -/
def ofKey? (key : List Char) : Option Pitch := all.find? (·.key = key)

end Pitch

end Ringtone
