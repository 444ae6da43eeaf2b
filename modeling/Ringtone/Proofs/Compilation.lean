import Mathlib
import Ringtone.Composer
import Ringtone.Proofs.Duration
import Ringtone.Proofs.Frequency
import Ringtone.Proofs.NoteGrammar
import Ringtone.Proofs.Traversal

/-!
# Compiling a score

A token compiles when it is written for a note, the note's frequency is within the range of binary64
numbers under the tuning, and so are tempo and fraction. A score compiles when all its tokens do. If
not, the first token that does not compile decides what the fault is.
-/

namespace Ringtone

open Number Text

namespace Note

/-- The fraction of a written note can be written again. -/
theorem IsWritten.parts_lt {note : Note} {token : List Char} (h : note.IsWritten token) :
    note.fraction.parts < writableLimit := by
  obtain ⟨digits, hsplit, hlength, hvalue⟩ := h
  rw [← hvalue, writableLimit]
  exact (ofDecimalDigits_lt hsplit.all_digits).trans_le (pow_le_pow_right₀ (by norm_num) hlength)

end Note

namespace Score

variable {tempo : Tempo} {tuning : ℕ} {token : List Char} {note : Note}

/-! ## One token -/

theorem compileToken_of_flaw {digits rest : List Char} {cause : NoteFault}
    (hsplit : LeadingDigits token digits rest) (hflaw : Note.Flaw digits rest cause) :
    compileToken tempo tuning token = .error (.badNote token cause) := by
  rw [compileToken, Note.parse_of_flaw hsplit hflaw]
  show Except.error (inToken token (Fault.ofNote cause)) = _
  rw [Note.ofNote_of_flaw hflaw]
  rfl

theorem compileToken_of_isWritten (h : note.IsWritten token) :
    compileToken tempo tuning token = (toneOf tempo tuning note).mapError (inToken token) := by
  rw [compileToken, Note.parse_of_isWritten h]
  rfl

/-- The frequency is looked at before the length. -/
theorem compileToken_of_overflows (h : note.IsWritten token) (htuning : 0 < tuning)
    (hover : note.pitch.Overflows tuning) :
    compileToken tempo tuning token = .error (.number .tooLarge) := by
  rw [compileToken_of_isWritten h, toneOf, Pitch.frequency_eq_error note.pitch htuning hover]
  rfl

/-- Within the range of frequencies the length decides. -/
theorem compileToken_of_not_overflows (h : note.IsWritten token) (htuning : 0 < tuning)
    (hover : ¬ note.pitch.Overflows tuning) :
    compileToken tempo tuning token =
      ((noteLength note.fraction tempo).map (Tone.mk (note.pitch.hertz tuning))).mapError
        (inToken token) := by
  rw [compileToken_of_isWritten h, toneOf, Pitch.frequency_eq_ok note.pitch htuning hover]
  cases noteLength note.fraction tempo <;> rfl

theorem compileToken_of_large_tempo (h : note.IsWritten token) (htuning : 0 < tuning)
    (hover : ¬ note.pitch.Overflows tuning) (htempo : rangeLimit ≤ tempo.beats)
    (hwritable : tempo.beats < writableLimit) :
    compileToken tempo tuning token =
      .error (.badNote token (.invalidTempo (.int tempo.beats) .tooLarge)) := by
  rw [compileToken_of_not_overflows h htuning hover, noteLength_of_large_tempo htempo,
    ofNote_eq (n := tempo.beats) rfl, if_pos hwritable]
  rfl

theorem compileToken_of_unwritable_tempo (h : note.IsWritten token) (htuning : 0 < tuning)
    (hover : ¬ note.pitch.Overflows tuning) (hwritable : writableLimit ≤ tempo.beats) :
    compileToken tempo tuning token = .error .unwritableNumeral := by
  rw [compileToken_of_not_overflows h htuning hover,
    noteLength_of_large_tempo (rangeLimit_le_writableLimit.trans hwritable),
    ofNote_eq (n := tempo.beats) rfl, if_neg (not_lt.mpr hwritable)]
  rfl

theorem compileToken_of_large_fraction (h : note.IsWritten token) (htuning : 0 < tuning)
    (hover : ¬ note.pitch.Overflows tuning) (htempo : tempo.beats < rangeLimit)
    (hparts : rangeLimit ≤ note.fraction.parts) :
    compileToken tempo tuning token =
      .error (.badNote token (.invalidFraction (.int note.fraction.parts) .tooLarge)) := by
  rw [compileToken_of_not_overflows h htuning hover, noteLength_of_large_fraction htempo hparts,
    ofNote_eq (n := note.fraction.parts) rfl, if_pos h.parts_lt]
  rfl

theorem compileToken_of_within (h : note.IsWritten token) (htuning : 0 < tuning)
    (hover : ¬ note.pitch.Overflows tuning) (htempo : tempo.beats < rangeLimit)
    (hparts : note.fraction.parts < rangeLimit) :
    ∃ tone, compileToken tempo tuning token = .ok tone := by
  rw [compileToken_of_not_overflows h htuning hover, noteLength_eq_ok htempo hparts]
  exact ⟨_, rfl⟩

/-- The token is written for a note whose frequency and length are within the range of binary64
numbers. -/
def Plays (tempo : Tempo) (tuning : ℕ) (token : List Char) : Prop :=
  ∃ note : Note, note.IsWritten token ∧ ¬ note.pitch.Overflows tuning ∧ tempo.beats < rangeLimit ∧
    note.fraction.parts < rangeLimit

/-- Why a token does not compile, and the fault that this is. -/
inductive Refused (tempo : Tempo) (tuning : ℕ) (token : List Char) : Fault → Prop
  /-- It is not written for a note. -/
  | flaw {digits rest : List Char} {cause : NoteFault} (hsplit : LeadingDigits token digits rest)
      (hflaw : Note.Flaw digits rest cause) : Refused tempo tuning token (.badNote token cause)
  /-- The frequency is beyond the range. -/
  | frequency {note : Note} (h : note.IsWritten token) (hover : note.pitch.Overflows tuning) :
    Refused tempo tuning token (.number .tooLarge)
  /-- The tempo is beyond the range. -/
  | tempo {note : Note} (h : note.IsWritten token) (hover : ¬ note.pitch.Overflows tuning)
      (htempo : rangeLimit ≤ tempo.beats) (hwritable : tempo.beats < writableLimit) :
    Refused tempo tuning token (.badNote token (.invalidTempo (.int tempo.beats) .tooLarge))
  /-- The tempo is beyond the range and cannot be written. -/
  | unwritableTempo {note : Note} (h : note.IsWritten token)
      (hover : ¬ note.pitch.Overflows tuning) (hwritable : writableLimit ≤ tempo.beats) :
    Refused tempo tuning token .unwritableNumeral
  /-- The fraction is beyond the range. -/
  | fraction {note : Note} (h : note.IsWritten token) (hover : ¬ note.pitch.Overflows tuning)
      (htempo : tempo.beats < rangeLimit) (hparts : rangeLimit ≤ note.fraction.parts) :
    Refused tempo tuning token
      (.badNote token (.invalidFraction (.int note.fraction.parts) .tooLarge))

theorem plays_or_refused (tempo : Tempo) (tuning : ℕ) (token : List Char) :
    Plays tempo tuning token ∨ ∃ fault, Refused tempo tuning token fault := by
  have hsplit := LeadingDigits.exists_split token
  rcases Note.isWritten_or_flaw hsplit with ⟨note, h⟩ | ⟨cause, hflaw⟩
  · by_cases hover : note.pitch.Overflows tuning
    · exact Or.inr ⟨_, .frequency h hover⟩
    rcases lt_or_ge tempo.beats rangeLimit with htempo | htempo
    · rcases lt_or_ge note.fraction.parts rangeLimit with hparts | hparts
      · exact Or.inl ⟨note, h, hover, htempo, hparts⟩
      · exact Or.inr ⟨_, .fraction h hover htempo hparts⟩
    · rcases lt_or_ge tempo.beats writableLimit with hwritable | hwritable
      · exact Or.inr ⟨_, .tempo h hover htempo hwritable⟩
      · exact Or.inr ⟨_, .unwritableTempo h hover hwritable⟩
  · exact Or.inr ⟨_, .flaw hsplit hflaw⟩

theorem compileToken_of_refused {fault : Fault} (htuning : 0 < tuning)
    (h : Refused tempo tuning token fault) : compileToken tempo tuning token = .error fault := by
  cases h with
  | flaw hsplit hflaw => exact compileToken_of_flaw hsplit hflaw
  | frequency h hover => exact compileToken_of_overflows h htuning hover
  | tempo h hover htempo hwritable =>
    exact compileToken_of_large_tempo h htuning hover htempo hwritable
  | unwritableTempo h hover hwritable =>
    exact compileToken_of_unwritable_tempo h htuning hover hwritable
  | fraction h hover htempo hparts =>
    exact compileToken_of_large_fraction h htuning hover htempo hparts

theorem compileToken_of_plays (htuning : 0 < tuning) (h : Plays tempo tuning token) :
    ∃ tone, compileToken tempo tuning token = .ok tone := by
  obtain ⟨note, hwritten, hover, htempo, hparts⟩ := h
  exact compileToken_of_within hwritten htuning hover htempo hparts

theorem plays_iff (htuning : 0 < tuning) :
    (∃ tone, compileToken tempo tuning token = .ok tone) ↔ Plays tempo tuning token := by
  refine ⟨fun ⟨tone, htone⟩ => ?_, compileToken_of_plays htuning⟩
  rcases plays_or_refused tempo tuning token with hplays | ⟨fault, hrefused⟩
  · exact hplays
  · rw [compileToken_of_refused htuning hrefused] at htone
    cases htone

theorem Plays.not_refused {fault : Fault} (h : Plays tempo tuning token) (htuning : 0 < tuning) :
    ¬ Refused tempo tuning token fault := by
  intro hrefused
  obtain ⟨tone, htone⟩ := compileToken_of_plays htuning h
  rw [compileToken_of_refused htuning hrefused] at htone
  cases htone

theorem refused_iff (htuning : 0 < tuning) {fault : Fault} :
    compileToken tempo tuning token = .error fault ↔ Refused tempo tuning token fault := by
  refine ⟨fun h => ?_, compileToken_of_refused htuning⟩
  rcases plays_or_refused tempo tuning token with hplays | ⟨other, hrefused⟩
  · obtain ⟨tone, htone⟩ := compileToken_of_plays htuning hplays
    rw [h] at htone
    cases htone
  · rw [compileToken_of_refused htuning hrefused] at h
    cases h
    exact hrefused

/-- The tone of a token is what the conversions on their own give for its note. -/
theorem conversions_of_compileToken {tone : Tone}
    (h : note.IsWritten token) (htone : compileToken tempo tuning token = .ok tone) :
    frequencyOf (.ofChars note.pitch.key) (.int tuning) = .ok tone.frequency ∧
      durationOf (.int note.fraction.parts) (.int tempo.beats) = .ok tone.duration := by
  have hfrequency : frequencyOf (.ofChars note.pitch.key) (.int tuning) =
      ofNumber (note.pitch.frequency (.whole tuning)) := by
    rw [frequencyOf, Pitch.ofValue_key]
    rfl
  rw [compileToken_of_isWritten h, toneOf] at htone
  rw [hfrequency, durationOf_natCast]
  cases hf : ofNumber (note.pitch.frequency (.whole tuning)) with
  | error fault => rw [hf] at htone; cases htone
  | ok frequency =>
    cases hd : noteLength note.fraction tempo with
    | error fault => rw [hf, hd] at htone; cases htone
    | ok duration =>
      rw [hf, hd] at htone
      cases htone
      exact ⟨rfl, rfl⟩

/-! ## Tokens within the limits -/

/-- The token is written for a note with a fraction in the range of binary64 numbers. -/
def IsGood (token : List Char) : Prop :=
  ∃ note : Note, note.IsWritten token ∧ note.fraction.parts < rangeLimit

/-- What is wrong with a token of some digits and a rest: a flaw of its spelling, or else a fraction
that is too large. -/
inductive Defect (digits rest : List Char) : NoteFault → Prop
  /-- It is not written for a note. -/
  | flaw {cause : NoteFault} (h : Note.Flaw digits rest cause) : Defect digits rest cause
  /-- The fraction is beyond the range. -/
  | tooLarge (hlength : digits.length ≤ 4300) (hname : IsPitchName rest)
      (hlarge : rangeLimit ≤ ofDecimalDigits digits) :
    Defect digits rest (.invalidFraction (.int (ofDecimalDigits digits)) .tooLarge)

theorem plays_iff_isGood (htempo : tempo.beats < rangeLimit) (htuning : tuning ≤ 2 ^ 1000) :
    Plays tempo tuning token ↔ IsGood token := by
  constructor
  · rintro ⟨note, h, _, _, hparts⟩
    exact ⟨note, h, hparts⟩
  · rintro ⟨note, h, hparts⟩
    exact ⟨note, h, note.pitch.not_overflows htuning, htempo, hparts⟩

theorem refused_iff_defect {fault : Fault} (htempo : tempo.beats < rangeLimit)
    (htuning : tuning ≤ 2 ^ 1000) :
    Refused tempo tuning token fault ↔ ∃ digits rest cause, LeadingDigits token digits rest ∧
      Defect digits rest cause ∧ fault = .badNote token cause := by
  constructor
  · intro h
    cases h with
    | flaw hsplit hflaw => exact ⟨_, _, _, hsplit, .flaw hflaw, rfl⟩
    | @frequency note _ hover => exact absurd hover (note.pitch.not_overflows htuning)
    | tempo _ _ hlarge _ => exact absurd htempo (not_lt.mpr hlarge)
    | unwritableTempo _ _ hlarge =>
      exact absurd htempo (not_lt.mpr (rangeLimit_le_writableLimit.trans hlarge))
    | @fraction note h _ _ hparts =>
      obtain ⟨digits, hsplit, hlength, hvalue⟩ := h
      rw [← hvalue] at hparts ⊢
      exact ⟨digits, _, _, hsplit,
        .tooLarge hlength (Pitch.isPitchName_iff.mpr ⟨note.pitch, rfl⟩) hparts, rfl⟩
  · rintro ⟨digits, rest, cause, hsplit, hdefect, rfl⟩
    cases hdefect with
    | flaw hflaw => exact .flaw hsplit hflaw
    | tooLarge hlength hname hlarge =>
      obtain ⟨pitch, rfl⟩ := Pitch.isPitchName_iff.mp hname
      have hpos : 0 < ofDecimalDigits digits :=
        (lt_rangeLimit (k := 0) (by norm_num) (by norm_num)).trans_le hlarge
      have hwritten : Note.IsWritten ⟨⟨_, hpos⟩, pitch⟩ token := ⟨digits, hsplit, hlength, rfl⟩
      exact .fraction hwritten (pitch.not_overflows htuning) htempo hlarge

end Score

/-! ## All tokens -/

namespace Composer

variable {composer : Composer} {score : List Char}

theorem compile_eq_ok_iff {tones : List Tone} :
    composer.compile score = .ok tones ↔ List.Forall₂
      (fun token tone => Score.compileToken composer.tempo composer.tuning token = .ok tone)
      (Score.tokens score) tones :=
  mapM_eq_ok_iff

/-- The first token that does not compile decides. -/
theorem compile_eq_error_iff {fault : Fault} :
    composer.compile score = .error fault ↔ ∃ before token after,
      Score.tokens score = before ++ token :: after ∧
      (∀ t ∈ before, Score.Plays composer.tempo composer.tuning t) ∧
      Score.Refused composer.tempo composer.tuning token fault := by
  rw [compile, Score.compile, mapM_eq_error_iff]
  simp only [Score.plays_iff composer.tuning_pos, Score.refused_iff composer.tuning_pos]

/-! ## Within the limits -/

/-- A composer within the limits compiles a score exactly when all its tokens are good, and the
tones are then those of the conversions on their own, in order. Otherwise the first token that is
not good is reported, with what is wrong with it. -/
theorem compile_exact (composer : Composer) (score : List Char)
    (htempo : composer.tempo.beats < rangeLimit) (htuning : composer.tuning ≤ 2 ^ 1000) :
    ((∃ tones, composer.compile score = .ok tones) ↔
      ∀ token ∈ Score.tokens score, Score.IsGood token) ∧
    (∀ tones, composer.compile score = .ok tones → List.Forall₂
      (fun token tone => ∃ note : Note, note.IsWritten token ∧
        frequencyOf (.ofChars note.pitch.key) (.int composer.tuning) = .ok tone.frequency ∧
        durationOf (.int note.fraction.parts) (.int composer.tempo.beats) = .ok tone.duration)
      (Score.tokens score) tones) ∧
    (∀ fault, composer.compile score = .error fault ↔ ∃ before token after digits rest cause,
      Score.tokens score = before ++ token :: after ∧ (∀ t ∈ before, Score.IsGood t) ∧
      ¬ Score.IsGood token ∧ LeadingDigits token digits rest ∧ Score.Defect digits rest cause ∧
      fault = .badNote token cause) := by
  have hplays : ∀ token, Score.Plays composer.tempo composer.tuning token ↔ Score.IsGood token :=
    fun token => Score.plays_iff_isGood htempo htuning
  refine ⟨⟨?_, ?_⟩, ?_, ?_⟩
  · rintro ⟨tones, htones⟩ token htoken
    exact (hplays token).mp
      ((Score.plays_iff composer.tuning_pos).mp (exists_ok_of_mapM htones htoken))
  · intro hgood
    cases hcompile : composer.compile score with
    | ok tones => exact ⟨tones, rfl⟩
    | error fault =>
      obtain ⟨before, token, after, htokens, _, hrefused⟩ := compile_eq_error_iff.mp hcompile
      have hplay := (hplays token).mpr (hgood token (by simp [htokens]))
      exact absurd hrefused (hplay.not_refused composer.tuning_pos)
  · intro tones htones
    refine (compile_eq_ok_iff.mp htones).imp fun token tone htone => ?_
    obtain ⟨note, hwritten, _⟩ := (Score.plays_iff composer.tuning_pos).mp ⟨tone, htone⟩
    exact ⟨note, hwritten, Score.conversions_of_compileToken hwritten htone⟩
  · intro fault
    rw [compile_eq_error_iff]
    constructor
    · rintro ⟨before, token, after, htokens, hbefore, hrefused⟩
      have hbad : ¬ Score.IsGood token := fun hgood =>
        ((hplays token).mpr hgood).not_refused composer.tuning_pos hrefused
      obtain ⟨digits, rest, cause, hsplit, hdefect, rfl⟩ :=
        (Score.refused_iff_defect htempo htuning).mp hrefused
      exact ⟨before, token, after, digits, rest, cause, htokens,
        fun t ht => (hplays t).mp (hbefore t ht), hbad, hsplit, hdefect, rfl⟩
    · rintro ⟨before, token, after, digits, rest, cause, htokens, hbefore, _, hsplit, hdefect, rfl⟩
      exact ⟨before, token, after, htokens, fun t ht => (hplays t).mpr (hbefore t ht),
        (Score.refused_iff_defect htempo htuning).mpr ⟨digits, rest, cause, hsplit, hdefect, rfl⟩⟩

/-- In a score with a fraction of zero before a name that is unknown, the zero is reported. -/
theorem compile_zero_fraction :
    120 < rangeLimit ∧ 440 ≤ 2 ^ 1000 ∧
      compile ⟨⟨120, by decide⟩, 440, by decide⟩ "4c4 00x9 4q4".toList =
        .error (.badNote "00x9".toList (.invalidFraction (.int 0) .notPositive)) := by
  have htempo : 120 < rangeLimit := lt_rangeLimit (k := 7) (by norm_num) (by norm_num)
  have htuning : 440 ≤ 2 ^ 1000 := Pitch.concertTuning_le
  have hgood : Score.IsGood "4c4".toList :=
    ⟨⟨⟨4, by decide⟩, ⟨4, .c⟩⟩, ⟨['4'], .of_eq rfl rfl, by decide, rfl⟩,
      lt_rangeLimit (k := 2) (by norm_num) (by norm_num)⟩
  have hsplit : LeadingDigits "00x9".toList ['0', '0'] ['x', '9'] := .of_eq rfl rfl
  have hflaw : Note.Flaw ['0', '0'] ['x', '9'] (.invalidFraction (.int 0) .notPositive) :=
    .zero (by decide) (by decide) rfl
  have hbad : ¬ Score.IsGood "00x9".toList := by
    rintro ⟨note, hwritten, _⟩
    have := Note.parse_of_isWritten hwritten
    rw [Note.parse_of_flaw hsplit hflaw] at this
    cases this
  have hexact := compile_exact ⟨⟨120, by decide⟩, 440, by decide⟩ "4c4 00x9 4q4".toList htempo
    htuning
  refine ⟨htempo, htuning, (hexact.2.2 _).mpr ⟨["4c4".toList], "00x9".toList, ["4q4".toList],
    _, _, _, rfl, ?_, hbad, hsplit, .flaw hflaw, rfl⟩⟩
  simpa using hgood

/-! ## Beyond the limits -/

/-- The score comes to a token that is written for a note, while the note's frequency is beyond the
range of binary64 numbers or the tempo has too many digits to be written. -/
def Escapes (composer : Composer) (score : List Char) : Prop :=
  ∃ (before : List (List Char)) (token : List Char) (after : List (List Char)) (note : Note),
    Score.tokens score = before ++ token :: after ∧
    (∀ t ∈ before, Score.Plays composer.tempo composer.tuning t) ∧ note.IsWritten token ∧
    (note.pitch.Overflows composer.tuning ∨ writableLimit ≤ composer.tempo.beats)

/-- Compiling ends with tones or with a token that is not valid, unless the score comes to a note
whose frequency is beyond the range or whose tempo cannot be written: then one of these two is the
fault, and no token is named. -/
theorem compile_settles_iff (composer : Composer) (score : List Char) :
    (((∃ tones, composer.compile score = .ok tones) ∨
        ∃ token cause, composer.compile score = .error (.badNote token cause)) ↔
      ¬ composer.Escapes score) ∧
    (composer.Escapes score → composer.compile score = .error (.number .tooLarge) ∨
      composer.compile score = .error .unwritableNumeral) := by
  have hescapes : composer.Escapes score → composer.compile score = .error (.number .tooLarge) ∨
      composer.compile score = .error .unwritableNumeral := by
    rintro ⟨before, token, after, note, htokens, hbefore, hwritten, hcause⟩
    by_cases hover : note.pitch.Overflows composer.tuning
    · exact Or.inl (compile_eq_error_iff.mpr
        ⟨before, token, after, htokens, hbefore, .frequency hwritten hover⟩)
    · exact Or.inr (compile_eq_error_iff.mpr ⟨before, token, after, htokens, hbefore,
        .unwritableTempo hwritten hover (hcause.resolve_left hover)⟩)
  refine ⟨⟨?_, ?_⟩, hescapes⟩
  · rintro hsettled hescape
    rcases hescapes hescape with h | h <;> rw [h] at hsettled <;> simp at hsettled
  · intro hno
    cases hcompile : composer.compile score with
    | ok tones => exact Or.inl ⟨tones, rfl⟩
    | error fault =>
      obtain ⟨before, token, after, htokens, hbefore, hrefused⟩ := compile_eq_error_iff.mp hcompile
      cases hrefused with
      | flaw _ _ | tempo _ _ _ _ | fraction _ _ _ _ => exact Or.inr ⟨_, _, rfl⟩
      | frequency hwritten hover =>
        exact absurd ⟨before, token, after, _, htokens, hbefore, hwritten, Or.inl hover⟩ hno
      | unwritableTempo hwritten _ hlarge =>
        exact absurd ⟨before, token, after, _, htokens, hbefore, hwritten, Or.inr hlarge⟩ hno

/-- Under a tuning of `2 ^ 1024` Hertz a valid token is not named, and the fault is not one of a
note. -/
theorem compile_huge_tuning :
    compile ⟨⟨120, by decide⟩, 2 ^ 1024, by positivity⟩ "4c4".toList =
      .error (.number .tooLarge) := by
  have hwritten : Note.IsWritten ⟨⟨4, by decide⟩, ⟨4, .c⟩⟩ "4c4".toList :=
    ⟨['4'], .of_eq rfl rfl, by decide, rfl⟩
  exact compile_eq_error_iff.mpr ⟨[], "4c4".toList, [], rfl, List.forall_mem_nil _,
    .frequency hwritten (Or.inl rangeLimit_le)⟩

end Composer

end Ringtone
