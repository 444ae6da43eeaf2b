import Ringtone.Proofs.NoteLengths

/-!
# How far a rendered score falls behind

Each note of a score loses at most one millisecond to its length and one sample to the rate, and
never gains anything. Over a whole score the losses add up to no more than that for each note, and
the samples never run longer than the score as it is written.
-/

namespace Ringtone

open Number Sound

/-- The exact length in milliseconds of notes that are played one behind the other. -/
def notatedLength (tempo : Tempo) (notes : List Note) : ℚ :=
  (notes.map fun note => note.fraction.exactMilliseconds tempo).sum

theorem notatedLength_cons (tempo : Tempo) (note : Note) (notes : List Note) :
    notatedLength tempo (note :: notes) =
      note.fraction.exactMilliseconds tempo + notatedLength tempo notes := by
  rw [notatedLength, List.map_cons, List.sum_cons, notatedLength]

/-- The samples of notes that are played one behind the other. -/
def samplesOf (rate : ℕ) (tempo : Tempo) (notes : List Note) : ℕ :=
  (notes.map fun note => samplesIn rate (note.fraction.milliseconds tempo)).sum

theorem samplesOf_cons (rate : ℕ) (tempo : Tempo) (note : Note) (notes : List Note) :
    samplesOf rate tempo (note :: notes) =
      samplesIn rate (note.fraction.milliseconds tempo) + samplesOf rate tempo notes := by
  rw [samplesOf, List.map_cons, List.sum_cons, samplesOf]

variable {rate duration : ℕ} {tempo : Tempo}

theorem samplesIn_bounds (rate duration : ℕ) :
    (rate : ℚ) * duration / 1000 - 1 ≤ samplesIn rate duration ∧
      (samplesIn rate duration : ℚ) ≤ rate * duration / 1000 := by
  have hlow : rate * duration ≤ 1000 * samplesIn rate duration + 1000 := by
    unfold samplesIn
    omega
  have hhigh : 1000 * samplesIn rate duration ≤ rate * duration := by
    unfold samplesIn
    omega
  have hlow' : (rate : ℚ) * duration ≤ 1000 * samplesIn rate duration + 1000 := by
    exact_mod_cast hlow
  have hhigh' : 1000 * (samplesIn rate duration : ℚ) ≤ rate * duration := by exact_mod_cast hhigh
  constructor <;> linarith

/-- What one note adds: no more than the samples of its exact length, and no less than those of a
millisecond less, less one. -/
theorem samplesIn_milliseconds_bounds (rate : ℕ) (tempo : Tempo) (fraction : Fraction) :
    rate * (fraction.exactMilliseconds tempo - 1) / 1000 - 1 ≤
        (samplesIn rate (fraction.milliseconds tempo) : ℚ) ∧
      (samplesIn rate (fraction.milliseconds tempo) : ℚ) ≤
        rate * fraction.exactMilliseconds tempo / 1000 := by
  obtain ⟨hhigh, hlow⟩ := fraction.milliseconds_bounds tempo
  obtain ⟨hfew, hmany⟩ := samplesIn_bounds rate (fraction.milliseconds tempo)
  have hrate : (0 : ℚ) ≤ rate := rate.cast_nonneg
  have hlow' := mul_le_mul_of_nonneg_left hlow hrate
  have hhigh' := mul_le_mul_of_nonneg_left hhigh hrate
  constructor <;> linarith

/-- The notes of a score add up. -/
theorem samplesOf_bounds (rate : ℕ) (tempo : Tempo) (notes : List Note) :
    rate * (notatedLength tempo notes - notes.length) / 1000 - notes.length ≤
        (samplesOf rate tempo notes : ℚ) ∧
      (samplesOf rate tempo notes : ℚ) ≤ rate * notatedLength tempo notes / 1000 := by
  induction notes with
  | nil => simp [samplesOf, notatedLength]
  | cons note notes ih =>
    obtain ⟨hlow, hhigh⟩ := samplesIn_milliseconds_bounds rate tempo note.fraction
    obtain ⟨hlowRest, hhighRest⟩ := ih
    rw [samplesOf_cons, notatedLength_cons, List.length_cons]
    push_cast
    constructor <;> linarith

/-- A token is written for one note. -/
theorem Note.isWritten_rightUnique :
    Relator.RightUnique fun token (note : Note) => note.IsWritten token := by
  intro token note other hnote hother
  have hparse := parse_of_isWritten hnote
  rw [parse_of_isWritten hother] at hparse
  exact (Except.ok.inj hparse).symm

namespace Composer

variable {composer : Composer} {score : List Char} {tones : List Tone}

/-- A score that compiles can be rendered at every rate that the header has room for, in every style
and with every gap. The samples never run longer than the notes as they are written, and fall behind
by at most one millisecond and one sample for each of them. -/
theorem render_lag_bounds (htones : composer.compile score = .ok tones) (hrate : 1 ≤ rate)
    (hlimit : 2 * rate < wordLimit) (style : Style) (gap : ℕ) :
    ∃ (notes : List Note) (samples : List Float),
      List.Forall₂ (fun token note => note.IsWritten token) (Score.tokens score) notes ∧
      renderTones tones (.int rate) (.ofString style.name) (.int gap) = .ok samples ∧
      rate * (notatedLength composer.tempo notes - notes.length) / 1000 - notes.length ≤
        (samples.length : ℚ) ∧
      (samples.length : ℚ) ≤ rate * notatedLength composer.tempo notes / 1000 := by
  obtain ⟨samples, hsamples, hlength⟩ :=
    exists_samples_of_isCompiled (isCompiled_of_compile htones) hrate hlimit style gap
  obtain ⟨notes, hnotes, rfl⟩ := compile_eq_ok_iff_notes.mp htones
  have hcount : samples.length = samplesOf rate composer.tempo notes := by
    rw [hlength, List.map_map]
    rfl
  refine ⟨notes, samples, hnotes.imp fun _ _ hnote => hnote.1, hsamples, ?_⟩
  rw [hcount]
  exact samplesOf_bounds rate composer.tempo notes

/-- A third at a tempo of 25 lasts 3200 milliseconds exactly, and one of them is lost. -/
theorem render_lag_third :
    compile ⟨⟨25, by decide⟩, 440, by decide⟩ "3c4".toList = .ok [⟨262, 3199⟩] ∧
      2 * 8000 < wordLimit ∧ ∃ samples,
        renderTones [⟨262, 3199⟩] (.int 8000) (.ofString "sine") (.int 20) = .ok samples ∧
          25591 ≤ samples.length ∧ samples.length ≤ 25600 := by
  have htones : compile ⟨⟨25, by decide⟩, 440, by decide⟩ "3c4".toList = .ok [⟨262, 3199⟩] :=
    eq_ok_of_toOption (by decide +kernel)
  have hwritten : Note.IsWritten ⟨⟨3, by decide⟩, ⟨4, .c⟩⟩ "3c4".toList :=
    ⟨['3'], .of_eq rfl rfl, by decide, rfl⟩
  obtain ⟨notes, samples, hnotes, hsamples, hlow, hhigh⟩ :=
    render_lag_bounds htones (by decide : 1 ≤ 8000) (by decide) .sine 20
  obtain rfl := Note.isWritten_rightUnique.forall₂ hnotes (.cons hwritten .nil)
  refine ⟨htones, by decide, samples, hsamples, ?_, ?_⟩
  · norm_num [notatedLength, Fraction.exactMilliseconds, longestLength] at hlow
    exact_mod_cast hlow
  · norm_num [notatedLength, Fraction.exactMilliseconds, longestLength] at hhigh
    exact_mod_cast hhigh

end Composer

end Ringtone
