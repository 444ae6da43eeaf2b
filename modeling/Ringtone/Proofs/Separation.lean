import Ringtone.Proofs.Compilation

/-!
# Tempo and tuning do not meet

Within the limits of binary64 numbers a token compiles or not whatever tempo and tuning are, and the
tone of its note takes the frequency from pitch and tuning alone and the length from fraction and
tempo alone. So it is with whole scores: one score has one outcome, up to the two settings, and each
of them decides one half of every tone.
-/

namespace Ringtone

open Number Text

/-! ## The two halves of a tone -/

/-- The length of a fraction at a tempo, both within the range. -/
def Fraction.milliseconds (fraction : Fraction) (tempo : Tempo) : ℕ :=
  (lengthOnGrid (nearest fraction.parts) (nearest tempo.beats)).toNat

namespace Note

/-- The tone of a note. -/
def tone (tempo : Tempo) (tuning : ℕ) (note : Note) : Tone where
  frequency := note.pitch.hertz tuning
  duration := note.fraction.milliseconds tempo

/-- Nothing about the note is beyond the range. -/
structure IsPlayable (tempo : Tempo) (tuning : ℕ) (note : Note) : Prop where
  frequency : ¬ note.pitch.Overflows tuning
  tempo : tempo.beats < rangeLimit
  fraction : note.fraction.parts < rangeLimit

end Note

namespace Score

variable {tempo : Tempo} {tuning : ℕ} {token : List Char} {note : Note} {tone : Tone}

theorem compileToken_of_isPlayable (htuning : 0 < tuning) (h : note.IsWritten token)
    (hplayable : note.IsPlayable tempo tuning) :
    compileToken tempo tuning token = .ok (note.tone tempo tuning) := by
  rw [compileToken_of_not_overflows h htuning hplayable.frequency,
    noteLength_eq_ok hplayable.tempo hplayable.fraction]
  rfl

theorem compileToken_eq_ok_iff (htuning : 0 < tuning) :
    compileToken tempo tuning token = .ok tone ↔ ∃ note : Note,
      (note.IsWritten token ∧ note.IsPlayable tempo tuning) ∧ tone = note.tone tempo tuning := by
  constructor
  · intro h
    obtain ⟨note, hwritten, hover, htempo, hparts⟩ := (plays_iff htuning).mp ⟨tone, h⟩
    have hplayable : note.IsPlayable tempo tuning := ⟨hover, htempo, hparts⟩
    rw [compileToken_of_isPlayable htuning hwritten hplayable] at h
    exact ⟨note, ⟨hwritten, hplayable⟩, (Except.ok.inj h).symm⟩
  · rintro ⟨note, ⟨hwritten, hplayable⟩, rfl⟩
    exact compileToken_of_isPlayable htuning hwritten hplayable

end Score

namespace Composer

variable {composer : Composer} {score : List Char}

/-- The tones of a score are those of the notes that its tokens are written for. -/
theorem compile_eq_ok_iff_notes {tones : List Tone} :
    composer.compile score = .ok tones ↔ ∃ notes, List.Forall₂ (fun token note =>
        note.IsWritten token ∧ note.IsPlayable composer.tempo composer.tuning)
        (Score.tokens score) notes ∧
      tones = notes.map (Note.tone composer.tempo composer.tuning) := by
  rw [compile_eq_ok_iff, ← forall₂_exists_eq_map_iff]
  simp only [Score.compileToken_eq_ok_iff composer.tuning_pos]

/-! ## Composers within the limits -/

/-- Tempo and tuning are within the limits: no pitch and no length is beyond the range because of
them. -/
structure IsWithin (composer : Composer) : Prop where
  tempo : composer.tempo.beats < rangeLimit
  tuning : composer.tuning ≤ 2 ^ 1000

theorem IsWithin.isPlayable_iff (h : composer.IsWithin) {note : Note} :
    note.IsPlayable composer.tempo composer.tuning ↔ note.fraction.parts < rangeLimit :=
  ⟨fun hplayable => hplayable.fraction, fun hparts =>
    ⟨note.pitch.not_overflows h.tuning, h.tempo, hparts⟩⟩

/-- The first token that is not good decides, and what is wrong with it is in the token alone. -/
theorem IsWithin.compile_eq_error_iff (h : composer.IsWithin) {fault : Fault} :
    composer.compile score = .error fault ↔ ∃ before token after digits rest cause,
      Score.tokens score = before ++ token :: after ∧ (∀ t ∈ before, Score.IsGood t) ∧
      LeadingDigits token digits rest ∧ Score.Defect digits rest cause ∧
      fault = .badNote token cause := by
  rw [Composer.compile_eq_error_iff]
  simp only [Score.plays_iff_isGood h.tempo h.tuning, Score.refused_iff_defect h.tempo h.tuning]
  constructor
  · rintro ⟨before, token, after, htokens, hbefore, digits, rest, cause, hdefect⟩
    exact ⟨before, token, after, digits, rest, cause, htokens, hbefore, hdefect⟩
  · rintro ⟨before, token, after, digits, rest, cause, htokens, hbefore, hdefect⟩
    exact ⟨before, token, after, htokens, hbefore, digits, rest, cause, hdefect⟩

theorem IsWithin.exists_badNote_of_error (h : composer.IsWithin) {fault : Fault}
    (hfault : composer.compile score = .error fault) :
    ∃ token cause, fault = .badNote token cause := by
  obtain ⟨_, token, _, _, _, cause, _, _, _, _, rfl⟩ := h.compile_eq_error_iff.mp hfault
  exact ⟨token, cause, rfl⟩

variable {other : Composer}

/-- A score is refused by all composers within the limits for the same reason. -/
theorem IsWithin.compile_eq_error_iff_other (h : composer.IsWithin) (hother : other.IsWithin)
    {fault : Fault} :
    composer.compile score = .error fault ↔ other.compile score = .error fault := by
  rw [h.compile_eq_error_iff, hother.compile_eq_error_iff]

/-- What one composer within the limits compiles, they all do, and to the same notes. -/
theorem IsWithin.exists_notes (h : composer.IsWithin) {tones : List Tone}
    (htones : composer.compile score = .ok tones) :
    ∃ notes : List Note, ∀ other : Composer, other.IsWithin →
      other.compile score = .ok (notes.map (Note.tone other.tempo other.tuning)) := by
  obtain ⟨notes, hnotes, rfl⟩ := compile_eq_ok_iff_notes.mp htones
  refine ⟨notes, fun other hother => compile_eq_ok_iff_notes.mpr ⟨notes, ?_, rfl⟩⟩
  refine hnotes.imp fun token note hnote => ⟨hnote.1, ?_⟩
  exact hother.isPlayable_iff.mpr (h.isPlayable_iff.mp hnote.2)

theorem frequencies_of_notes (notes : List Note) (tempo : Tempo) (tuning : ℕ) :
    (notes.map (Note.tone tempo tuning)).map Tone.frequency =
      notes.map fun note => note.pitch.hertz tuning := by
  rw [List.map_map]
  rfl

theorem durations_of_notes (notes : List Note) (tempo : Tempo) (tuning : ℕ) :
    (notes.map (Note.tone tempo tuning)).map Tone.duration =
      notes.map fun note => note.fraction.milliseconds tempo := by
  rw [List.map_map]
  rfl

/-- Two composers within the limits and the two that have the tempo of the one and the tuning of the
other: either all four compile the score, the frequencies being the same under the same tuning and
the lengths at the same tempo, or all four refuse it with one token and one cause. -/
theorem compile_separates (first second : Composer) (score : List Char) (hfirst : first.IsWithin)
    (hsecond : second.IsWithin) :
    (∃ tones mixed others otherMixed : List Tone,
      first.compile score = .ok tones ∧
      { first with tempo := second.tempo }.compile score = .ok mixed ∧
      second.compile score = .ok others ∧
      { second with tempo := first.tempo }.compile score = .ok otherMixed ∧
      tones.map Tone.frequency = mixed.map Tone.frequency ∧
      others.map Tone.frequency = otherMixed.map Tone.frequency ∧
      tones.map Tone.duration = otherMixed.map Tone.duration ∧
      others.map Tone.duration = mixed.map Tone.duration) ∨
    ∃ token cause,
      first.compile score = .error (.badNote token cause) ∧
      { first with tempo := second.tempo }.compile score = .error (.badNote token cause) ∧
      second.compile score = .error (.badNote token cause) ∧
      { second with tempo := first.tempo }.compile score = .error (.badNote token cause) := by
  have hmixed : IsWithin { first with tempo := second.tempo } := ⟨hsecond.tempo, hfirst.tuning⟩
  have hotherMixed : IsWithin { second with tempo := first.tempo } :=
    ⟨hfirst.tempo, hsecond.tuning⟩
  cases hcompile : first.compile score with
  | ok tones =>
    obtain ⟨notes, hnotes⟩ := hfirst.exists_notes hcompile
    refine Or.inl ⟨_, _, _, _, hcompile.symm.trans (hnotes _ hfirst), hnotes _ hmixed,
      hnotes _ hsecond, hnotes _ hotherMixed, ?_⟩
    simp only [frequencies_of_notes, durations_of_notes, and_self]
  | error fault =>
    obtain ⟨token, cause, rfl⟩ := hfirst.exists_badNote_of_error hcompile
    refine Or.inr ⟨token, cause, rfl, ?_⟩
    exact ⟨(hfirst.compile_eq_error_iff_other hmixed).mp hcompile,
      (hfirst.compile_eq_error_iff_other hsecond).mp hcompile,
      (hfirst.compile_eq_error_iff_other hotherMixed).mp hcompile⟩

/-- What a composer says of a note at a tempo and another of the same note under a tuning decides
what the composer with that tempo and that tuning says. -/
theorem compile_separates_quarter :
    IsWithin ⟨⟨120, by decide⟩, 440, by decide⟩ ∧ IsWithin ⟨⟨60, by decide⟩, 432, by decide⟩ ∧
      compile ⟨⟨60, by decide⟩, 440, by decide⟩ "4a4".toList = .ok [⟨440, 1000⟩] := by
  have hlimit : ∀ {n : ℕ}, n ≤ 2 ^ 9 → n < rangeLimit := lt_rangeLimit (by norm_num)
  have htuning : ∀ {n : ℕ}, n ≤ 2 ^ 9 → n ≤ 2 ^ 1000 := fun h =>
    h.trans (pow_le_pow_right₀ (by norm_num) (by norm_num))
  have hfirst : IsWithin ⟨⟨120, by decide⟩, 440, by decide⟩ :=
    ⟨hlimit (by norm_num), htuning (by norm_num)⟩
  have hsecond : IsWithin ⟨⟨60, by decide⟩, 432, by decide⟩ :=
    ⟨hlimit (by norm_num), htuning (by norm_num)⟩
  have hquick : compile ⟨⟨120, by decide⟩, 440, by decide⟩ "4a4".toList = .ok [⟨440, 500⟩] :=
    eq_ok_of_toOption (by decide +kernel)
  have hslow : compile ⟨⟨60, by decide⟩, 432, by decide⟩ "4a4".toList = .ok [⟨432, 1000⟩] :=
    eq_ok_of_toOption (by decide +kernel)
  refine ⟨hfirst, hsecond, ?_⟩
  rcases compile_separates _ _ "4a4".toList hfirst hsecond with
    ⟨tones, mixed, others, _, htones, hmixed, hothers, _, hfrequency, _, _, hduration⟩ |
      ⟨_, _, herror, _⟩
  · rw [hquick] at htones
    rw [hslow] at hothers
    cases htones
    cases hothers
    have hlength := (List.length_map _).symm.trans (congrArg List.length hfrequency).symm
    obtain ⟨⟨frequency, duration⟩, rfl⟩ := List.length_eq_one_iff.mp hlength
    cases hfrequency
    cases hduration
    exact hmixed
  · rw [hquick] at herror
    cases herror

end Composer

end Ringtone
