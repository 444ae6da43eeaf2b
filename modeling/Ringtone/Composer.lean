import Ringtone.Score

/-!
# Composers

A composer compiles scores at its tempo, which can be changed between two scores, and with its
tuning, which stays. One step follows the other: the lock under which a composer reads and changes
its tempo is not modelled, since nothing else runs between its taking and its release.
-/

namespace Ringtone

open Number

/-- The frequency of the A of the fourth octave where none is given. -/
def defaultTuning : Int := 440

/-- A tempo and a tuning. -/
structure Composer where
  /-- The tempo. -/
  tempo : Tempo
  /-- The frequency of the A of the fourth octave, in Hertz. -/
  tuning : Nat
  /-- It is above zero. -/
  tuning_pos : 0 < tuning

namespace Composer

/-- A composer of the tempo and the tuning that two values are. -/
def make (tempo tuning : Value) : Except Fault Composer := do
  let tempo ← Tempo.ofValue tempo
  match tuning.positive? with
  | some ⟨tuning, h⟩ => .ok { tempo, tuning, tuning_pos := h }
  | none => .error (.about .invalidTuning tuning)

/-- The composer at another tempo. -/
def changeTempo (composer : Composer) (tempo : Value) : Except Fault Composer := do
  return { composer with tempo := ← Tempo.ofValue tempo }

/-- The composer with a tempo assigned to it, which changes the tempo. -/
def setTempo (composer : Composer) (tempo : Value) : Except Fault Composer :=
  composer.changeTempo tempo

/-- The tones of a score. -/
def compile (composer : Composer) (score : List Char) : Except Fault (List Tone) :=
  Score.compile composer.tempo composer.tuning score

/-- The tones of a score, with any invalid note reported as a fault of the score. -/
def compileUnchecked (composer : Composer) (score : List Char) : Except Fault (List Tone) :=
  (composer.compile score).mapError fun
    | .badNote token cause => .badScore token cause
    | fault => fault

/-- How messages write a composer. -/
def text (composer : Composer) : Except Fault String :=
  if isWritable composer.tempo.beats && isWritable composer.tuning then
    .ok ("Composer(bpm=" ++ numeral composer.tempo.beats ++ ", a4_frequency="
      ++ numeral composer.tuning ++ ")")
  else .error .unwritableNumeral

/-! ## Steps -/

/-- What a composer can be asked. -/
inductive Step where
  /-- To compile a score. -/
  | compile (score : Value)
  /-- To compile a score without detail in its faults. -/
  | compileUnchecked (score : Value)
  /-- To change the tempo. -/
  | changeTempo (tempo : Value)
  /-- To assign the tempo. -/
  | setTempo (tempo : Value)
  /-- To change the tuning. -/
  | setTuning (tuning : Value)
  /-- The frequency of a pitch. -/
  | frequency (pitch : Value)
  /-- The length of a fraction. -/
  | duration (fraction : Value)
  /-- How messages write it. -/
  | text

/-- What a composer answers. -/
inductive Answer where
  /-- The tones of a score. -/
  | tones (tones : List Tone)
  /-- A number. -/
  | number (n : Int)
  /-- A text. -/
  | text (s : String)
  /-- Nothing but that it is done. -/
  | done

/-- The score that a value is. A surrogate in it is read as the escape that shows it, which is in no
note either. -/
def scoreOf : Value → Except Fault (List Char)
  | .text score => .ok score.toChars
  | _ => .error .noAttribute

/-- The answer to a change: that it is done, unless it failed, which leaves the composer as it
is. -/
def answerChange (composer : Composer) (outcome : Except Fault Composer) :
    Except Fault Answer × Composer :=
  match outcome with
  | .ok changed => (.ok .done, changed)
  | .error fault => (.error fault, composer)

/-- One step: the answer, and the composer after it. A step that fails changes nothing, and no step
changes the tuning. -/
def step (composer : Composer) : Step → Except Fault Answer × Composer
  | .compile score => ((scoreOf score >>= composer.compile).map .tones, composer)
  | .compileUnchecked score => ((scoreOf score >>= composer.compileUnchecked).map .tones, composer)
  | .changeTempo tempo => composer.answerChange (composer.changeTempo tempo)
  | .setTempo tempo => composer.answerChange (composer.setTempo tempo)
  | .setTuning _ => (.error .noAttribute, composer)
  | .frequency pitch => ((frequencyOf pitch (.int composer.tuning)).map .number, composer)
  | .duration fraction =>
    ((durationOf fraction (.int composer.tempo.beats)).map fun n => .number n, composer)
  | .text => (composer.text.map .text, composer)

end Composer

end Ringtone
