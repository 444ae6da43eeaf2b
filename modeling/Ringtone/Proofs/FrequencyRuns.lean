import Ringtone.Proofs.CommandRuns
import Ringtone.Proofs.ComposerRuns
import Ringtone.Proofs.ScoreRendering
import Ringtone.Proofs.SettingsSections

/-!
# Frequencies on the command line

The frequency of a pitch is printed under whatever tuning is in force, as long as it can be computed
with; a whole note of the pitch is compiled only where the tuning is a whole number above zero. So
the two agree on a pitch just where the tuning is one and the frequency is within the range of
binary64 numbers. A pitch that has a name is never reported as a fault.
-/

namespace Ringtone

open CommandLine Number Text

/-! ## A whole note of a pitch -/

/-- The characters between the space and the delete character are no blanks. -/
theorem Text.isBlank_of_visible {c : Char} (hlow : 0x20 < c.toNat) (hhigh : c.toNat < 0x7F) :
    isBlank c = false := by
  simp only [isBlank, Text.blanks, List.contains_eq_mem, List.mem_cons, List.not_mem_nil, or_false,
    decide_eq_false_iff_not]
  omega

theorem Pitch.not_isBlank_of_mem_key (pitch : Pitch) : ∀ c ∈ pitch.key, isBlank c = false := by
  have hvisible : ∀ c ∈ pitch.key, 0x20 < c.toNat ∧ c.toNat < 0x7F := by
    have hname : ∀ c ∈ pitch.name.text, 0x20 < c.toNat ∧ c.toNat < 0x7F := by
      cases pitch.name <;> simp [NoteName.text]
    have hoctave : ∀ octave : Fin 9,
        0x20 < (Nat.digitChar octave).toNat ∧ (Nat.digitChar octave).toNat < 0x7F := by decide
    intro c hc
    rcases List.mem_append.mp hc with htext | hdigit
    · exact hname c htext
    · rw [List.mem_singleton.mp hdigit]
      exact hoctave pitch.octave
  intro c hc
  obtain ⟨hlow, hhigh⟩ := hvisible c hc
  exact isBlank_of_visible hlow hhigh

namespace Note.IsWritten

variable {note : Note} {token : List Char} (h : note.IsWritten token)
include h

theorem ne_nil : token ≠ [] := by
  obtain ⟨digits, hsplit, _, _⟩ := h
  rw [hsplit.text_eq]
  simp [Pitch.key]

theorem not_isBlank : ∀ c ∈ token, isBlank c = false := by
  obtain ⟨digits, hsplit, _, _⟩ := h
  rw [hsplit.text_eq]
  refine List.forall_mem_append.mpr ⟨fun c hc => ?_, note.pitch.not_isBlank_of_mem_key⟩
  have hdigit := hsplit.all_digits c hc
  simp only [isAsciiDigit, Bool.and_eq_true, decide_eq_true_eq, Char.le_def] at hdigit
  have hlow : 0x30 ≤ c.toNat := hdigit.1
  have hhigh : c.toNat ≤ 0x39 := hdigit.2
  exact isBlank_of_visible (by omega) (by omega)

/-- A note is a score of one token. -/
theorem tokens_eq : Score.tokens token = [token] :=
  Score.tokens_of_not_isBlank h.ne_nil h.not_isBlank

theorem compile_eq (composer : Composer) : composer.compile token =
    (Score.compileToken composer.tempo composer.tuning token).map fun tone => [tone] := by
  rw [Composer.compile, Score.compile, h.tokens_eq, List.mapM_cons, List.mapM_nil]
  cases Score.compileToken composer.tempo composer.tuning token <;> rfl

end Note.IsWritten

namespace Pitch

/-- The whole note of the pitch as a score. -/
def wholeNote (pitch : Pitch) : List Char := '1' :: pitch.key

theorem isWritten_wholeNote (pitch : Pitch) :
    Note.IsWritten ⟨⟨1, Nat.one_pos⟩, pitch⟩ pitch.wholeNote := by
  refine ⟨['1'], ⟨rfl, ?_, pitch.not_isAsciiDigit_head?_key⟩, by decide, rfl⟩
  intro c hc
  rw [List.mem_singleton.mp hc]
  decide

end Pitch

namespace Composer

variable {composer : Composer} {pitch : Pitch}

theorem compile_wholeNote_of_overflows (h : pitch.Overflows composer.tuning) :
    composer.compile pitch.wholeNote = .error (.number .tooLarge) := by
  rw [pitch.isWritten_wholeNote.compile_eq,
    Score.compileToken_of_overflows pitch.isWritten_wholeNote composer.tuning_pos h]
  rfl

theorem compile_wholeNote_of_within (h : ¬ pitch.Overflows composer.tuning)
    (htempo : composer.tempo.beats < rangeLimit) :
    ∃ tone, composer.compile pitch.wholeNote = .ok [tone] ∧
      frequencyOf (.ofChars pitch.key) (.int composer.tuning) = .ok tone.frequency := by
  have hone : 1 < rangeLimit := lt_rangeLimit (k := 0) (by norm_num) (by norm_num)
  obtain ⟨tone, htone⟩ := Score.compileToken_of_within pitch.isWritten_wholeNote
    composer.tuning_pos h htempo hone
  refine ⟨tone, by rw [pitch.isWritten_wholeNote.compile_eq, htone]; rfl, ?_⟩
  exact (Score.conversions_of_compileToken pitch.isWritten_wholeNote htone).1

end Composer

namespace Commands

variable {s mid after : Session} {settings : Settings.ComposerSettings} {pitch : Pitch}

/-! ## Printing the frequency -/

/-- The tuning that the frequency is printed under. -/
def tuningFor (given : Option Int) : Action Value :=
  match given with
  | some n => pure (.int n)
  | none => do return (← Settings.composer).tuning

theorem quiet_tuningFor (given : Option Int) : Action.Quiet (tuningFor given) := by
  cases given with
  | some n => exact Action.quiet_pure _
  | none => exact Settings.quiet_composer.bind fun _ => Action.quiet_pure _

theorem tuningFor_perform (given : Option Int)
    (h : Settings.composer.perform s = (.ok settings, mid)) :
    ∃ after, (tuningFor given).perform s = (.ok (orElse given settings.tuning), after) := by
  cases given with
  | some n => exact ⟨s, rfl⟩
  | none => exact ⟨mid, Action.perform_bind_of_ok h _⟩

theorem frequency_eq (options : FrequencyOptions) : frequency options = (do
    let tuning ← tuningFor options.tuning
    reporting noteMessage?
      (do lookUpPitches; ofExcept (frequencyOf (.ofChars options.pitch) tuning))
      fun frequency => do
        Action.say (numeral frequency)
        return success) := by
  unfold frequency tuningFor
  cases options.tuning with
  | some n => rfl
  | none => exact (bind_assoc _ _ _).symm

/-- There are no words for what stops the computing of the frequency of a pitch that has a name. -/
theorem noteMessage?_of_frequencyOf {key : List Char} (hkey : key = pitch.key) {tuning : Value}
    {fault : Fault} (h : frequencyOf (.ofChars key) tuning = .error fault) :
    noteMessage? fault = none := by
  rw [hkey, pitch.frequencyOf_key] at h
  -- the name is known, so only the kind of the tuning or the range can be wrong
  have hkind : ∀ {fault}, tuning.quantity = .error fault → fault = .wrongKind := by
    intro fault hfault
    cases tuning <;> cases hfault <;> rfl
  cases hquantity : tuning.quantity with
  | error cause =>
    rw [hquantity] at h
    cases h
    rw [hkind hquantity]
    rfl
  | ok quantity =>
    rw [hquantity] at h
    change ofNumber (pitch.frequency quantity) = .error fault at h
    cases hfrequency : pitch.frequency quantity with
    | error cause =>
      rw [hfrequency] at h
      cases h
      rfl
    | ok n =>
      rw [hfrequency] at h
      cases h

/-- A run ends well and prints a line. -/
def Prints (s : Session) (result : Except Fault Nat × Session) (line : String) : Prop :=
  result.1 = .ok success ∧ result.2.output = s.output ++ line ++ "\n"

/-- A run ends with a message and prints nothing. -/
def ReportsError (s : Session) (result : Except Fault Nat × Session) : Prop :=
  result.1 = .ok failure ∧ result.2.output = s.output ∧ ∃ lines message,
    result.2.errors = s.errors ++ unlines (lines ++ ["Error: " ++ message])

theorem Prints.line_eq {result : Except Fault Nat × Session} {line other : String}
    (h : Prints s result line) (hother : Prints s result other) : line = other := by
  have hsame := h.2.symm.trans hother.2
  rw [String.append_assoc, String.append_assoc] at hsame
  exact String.append_left_inj _ |>.mp (String.append_right_inj _ |>.mp hsame)

/-- What has been reported prints nothing. -/
theorem ReportsError.not_prints {result : Except Fault Nat × Session} (h : ReportsError s result)
    (line : String) : ¬ Prints s result line := by
  rintro ⟨hsuccess, _⟩
  rw [h.1] at hsuccess
  cases hsuccess

/-- A fault that there are words for is reported. -/
theorem reportsError_of_message {α : Type} {reported : Fault → Option String} {first : Action α}
    {next : α → Action Nat} {fault : Fault} {message : String}
    (h : first.perform mid = (.error fault, after)) (hwords : reported fault = some message)
    (hreports : s.Reports after) :
    ReportsError s ((reporting reported first next).perform mid) := by
  obtain ⟨lines, hlines⟩ := hreports.exists_lines
  rw [reporting_of_message h hwords]
  refine ⟨rfl, hreports.output_eq, lines, message, ?_⟩
  show after.errors ++ ("Error: " ++ message) ++ "\n" = _
  rw [hlines, unlines_append, String.append_assoc, String.append_assoc]
  simp [unlines]

/-- Computing the frequency, once the tuning is known. -/
theorem ask_perform (pitch tuning : Value) (s : Session) : ∃ after,
    (do lookUpPitches; ofExcept (frequencyOf pitch tuning) : Action ℤ).perform s =
      (frequencyOf pitch tuning, after) ∧ s.Logs after :=
  Action.exists_perform_bind (lookUpPitches_perform s) fun _ mid =>
    Action.exists_perform_ofExcept _ mid

section Frequency

variable {options : FrequencyOptions} {tuning : Value}
  (htuning : (tuningFor options.tuning).perform s = (.ok tuning, mid))
include htuning

theorem frequency_of_ok {n : ℤ} (h : frequencyOf (.ofChars options.pitch) tuning = .ok n) :
    Prints s ((frequency options).perform s) (numeral n) := by
  obtain ⟨known, hasked, hlogs⟩ := ask_perform (.ofChars options.pitch) tuning mid
  have houtput : known.output = s.output :=
    hlogs.output_eq.trans ((quiet_tuningFor _).reports htuning).output_eq
  rw [h] at hasked
  rw [frequency_eq, Action.perform_bind_of_ok htuning, h, reporting_of_ok hasked, Prints,
    ← houtput]
  exact ⟨rfl, rfl⟩

theorem frequency_of_fault {fault : Fault}
    (h : frequencyOf (.ofChars options.pitch) tuning = .error fault)
    (hwords : noteMessage? fault = none) : ((frequency options).perform s).1 = .error fault := by
  obtain ⟨known, hasked, _⟩ := ask_perform (.ofChars options.pitch) tuning mid
  rw [h] at hasked
  rw [frequency_eq, Action.perform_bind_of_ok htuning, h, reporting_of_silent hasked hwords]

end Frequency

/-- A pitch that has a name is never reported. -/
theorem frequency_ne_failure {options : FrequencyOptions} (hpitch : options.pitch = pitch.key) :
    ((frequency options).perform s).1 ≠ .ok failure := by
  cases htuning : (tuningFor options.tuning).perform s with
  | mk outcome mid =>
    cases outcome with
    | error fault =>
      rw [frequency_eq, Action.perform_bind_of_error htuning]
      simp
    | ok tuning =>
      cases hfrequency : frequencyOf (.ofChars options.pitch) tuning with
      | ok n =>
        rw [(frequency_of_ok htuning hfrequency).1]
        simp [success, failure]
      | error fault =>
        rw [frequency_of_fault htuning hfrequency (noteMessage?_of_frequencyOf hpitch hfrequency)]
        simp

/-! ## Compiling a score -/

section Compiling

variable {options : CompileOptions} {input : List Char} {tempo tuning : Value}

theorem composerFor_of_composer (options : ScoreOptions)
    (h : Settings.composer.perform s = (.ok settings, mid)) :
    (composerFor options).perform s =
      (Composer.make (orElse options.tempo settings.tempo) (orElse options.tuning settings.tuning),
        mid) := by
  rw [composerFor, Action.perform_bind_of_ok h, Action.perform_ofExcept]

/-- Finding the composer and compiling, once the settings are there. -/
theorem tones_of_composer (options : ScoreOptions) (score : List Char)
    (h : Settings.composer.perform s = (.ok settings, mid)) :
    ∃ after, (composerFor options >>= fun composer => compileScore composer score).perform s =
      ((do (← Composer.make (orElse options.tempo settings.tempo)
        (orElse options.tuning settings.tuning)).compile score), after) ∧ s.Reports after := by
  have hquiet := (quiet_composerFor options).bind fun composer => quiet_compileScore composer score
  have hcomposer := composerFor_of_composer options h
  cases hmake : Composer.make (orElse options.tempo settings.tempo)
      (orElse options.tuning settings.tuning) with
  | error fault =>
    rw [hmake] at hcomposer
    have hperform := Action.perform_bind_of_error hcomposer
      fun composer => compileScore composer score
    exact ⟨mid, hperform, hquiet.reports hperform⟩
  | ok composer =>
    rw [hmake] at hcomposer
    obtain ⟨after, hcompile, _⟩ := compileScore_perform composer score mid
    have hperform := (Action.perform_bind_of_ok hcomposer
      fun composer => compileScore composer score).trans hcompile
    exact ⟨after, hperform, hquiet.reports hperform⟩

/-- The options compile a whole note of a pitch, and the tones are printed as text. -/
structure CompilesNote (options : CompileOptions) (input : List Char) (pitch : Pitch) : Prop where
  score_eq : scoreOf options.toScoreOptions input = pitch.wholeNote
  json_eq : options.json = false

variable (hsettings : Settings.composer.perform s = (.ok settings, mid))
include hsettings

omit hsettings in
theorem fits_orElse (number : Option ℤ) {otherwise : Value} (h : otherwise.isWritable = true) :
    (orElse number otherwise).Fits Value.levelLimit := by
  cases number with
  | none => exact Value.fits_of_isWritable h
  | some n => exact Value.fits_int n

/-- A tempo or a tuning that is none is reported. -/
theorem compile_of_make_error {fault : Fault}
    (hmake : Composer.make (orElse options.tempo settings.tempo)
      (orElse options.tuning settings.tuning) = .error fault) :
    ReportsError s ((compile options input).perform s) := by
  obtain ⟨after, htones, hreports⟩ := tones_of_composer options.toScoreOptions
    (scoreOf options.toScoreOptions input) hsettings
  rw [hmake] at htones
  have hwritable := Settings.isWritable_of_composer hsettings
  obtain ⟨message, hwords⟩ := Composer.exists_message_of_make
    (fits_orElse options.tempo hwritable.1) (fits_orElse options.tuning hwritable.2) hmake
  exact reportsError_of_message htones hwords hreports

theorem compile_of_overflows {composer : Composer} (hnote : CompilesNote options input pitch)
    (hmake : Composer.make (orElse options.tempo settings.tempo)
      (orElse options.tuning settings.tuning) = .ok composer)
    (h : pitch.Overflows composer.tuning) :
    ((compile options input).perform s).1 = .error (.number .tooLarge) := by
  obtain ⟨after, htones, _⟩ := tones_of_composer options.toScoreOptions
    (scoreOf options.toScoreOptions input) hsettings
  have hcompile := Composer.compile_wholeNote_of_overflows h
  rw [← hnote.score_eq] at hcompile
  rw [hmake] at htones
  have hfault := htones.trans (congrArg (·, after) hcompile)
  rw [compile, reporting_of_silent hfault rfl]

theorem compile_of_within {composer : Composer} (hnote : CompilesNote options input pitch)
    (hmake : Composer.make (orElse options.tempo settings.tempo)
      (orElse options.tuning settings.tuning) = .ok composer)
    (h : ¬ pitch.Overflows composer.tuning) (htempo : composer.tempo.beats < rangeLimit) :
    ∃ tone : Tone, frequencyOf (.ofChars pitch.key) (.int composer.tuning) = .ok tone.frequency ∧
      Prints s ((compile options input).perform s) (toneLine tone) := by
  obtain ⟨after, htones, hreports⟩ := tones_of_composer options.toScoreOptions
    (scoreOf options.toScoreOptions input) hsettings
  obtain ⟨tone, hcompile, hfrequency⟩ := Composer.compile_wholeNote_of_within h htempo
  rw [← hnote.score_eq] at hcompile
  rw [hmake] at htones
  refine ⟨tone, hfrequency, ?_⟩
  rw [compile_of_tones hnote.json_eq (htones.trans (congrArg (·, after) hcompile)), Prints,
    ← hreports.output_eq]
  simp [unlines, String.append_assoc]

omit hsettings in
/-- When tones have been printed, the settings were there and gave a composer that compiles the
score. -/
theorem exists_settings_of_success (hjson : options.json = false)
    (h : ((compile options input).perform s).1 = .ok success) :
    ∃ settings mid composer tones, Settings.composer.perform s = (.ok settings, mid) ∧
      Composer.make (orElse options.tempo settings.tempo)
        (orElse options.tuning settings.tuning) = .ok composer ∧
      composer.compile (scoreOf options.toScoreOptions input) = .ok tones := by
  cases hrun : (compile options input).perform s with
  | mk outcome after =>
    rw [hrun] at h
    dsimp only at h
    rw [h] at hrun
    obtain ⟨members, loaded, tones, hload, hgiven, _⟩ := compile_eq_success hjson hrun
    obtain ⟨composer, hcomposer, hcompile⟩ := tonesGiven_eq_ok_iff.mp hgiven
    obtain ⟨mid, hperform, _⟩ := Settings.composer_perform hload
    rw [composerGiven] at hcomposer
    cases hfrom : Settings.composerFrom members loaded.environment with
    | error fault =>
      rw [hfrom] at hcomposer
      cases hcomposer
    | ok settings =>
      rw [hfrom] at hcomposer hperform
      exact ⟨settings, mid, composer, tones, hperform, hcomposer, hcompile⟩

end Compiling

/-! ## The two compared -/

/-- Both runs print one frequency, the second as that of a tone, or both end with a message. -/
def Agree (s : Session) (frequencyRun compileRun : Except Fault Nat × Session) : Prop :=
  (∃ tone : Tone, Prints s frequencyRun (numeral tone.frequency) ∧
    Prints s compileRun (toneLine tone)) ∨
  ReportsError s frequencyRun ∧ ReportsError s compileRun

section Compared

variable {f : FrequencyOptions} {c : CompileOptions} {input : List Char}
  (hpitch : f.pitch = pitch.key) (hnote : CompilesNote c input pitch)
  (htuning : f.tuning = c.tuning)

include hpitch htuning in
/-- Once the settings are there, the frequency is printed, or what stops the computing ends the
program. -/
theorem frequency_settles (hsettings : Settings.composer.perform s = (.ok settings, mid)) :
    (∀ n, frequencyOf (.ofChars pitch.key) (orElse c.tuning settings.tuning) = .ok n →
      Prints s ((frequency f).perform s) (numeral n)) ∧
    ∀ fault, frequencyOf (.ofChars pitch.key) (orElse c.tuning settings.tuning) = .error fault →
      ((frequency f).perform s).1 = .error fault := by
  obtain ⟨after, hperform⟩ := tuningFor_perform f.tuning hsettings
  rw [← htuning, ← hpitch]
  refine ⟨fun n hn => frequency_of_ok hperform hn, fun fault hfault => ?_⟩
  exact frequency_of_fault hperform hfault (noteMessage?_of_frequencyOf hpitch hfault)

theorem make_of_force {tempo tuning : Value} {beats n : ℕ} (hbeats : 0 < beats)
    (htempo : tempo = .int beats) (hn : 0 < n) (htuning : tuning = .int n) :
    Composer.make tempo tuning = .ok ⟨⟨beats, hbeats⟩, n, hn⟩ :=
  Composer.make_eq_ok_iff.mpr ⟨htempo, htuning⟩

/-- The tempo in force, wherever the settings are there, is one that a length can be computed
with. -/
def TempoInForce (s : Session) (c : CompileOptions) : Prop :=
  ∀ settings mid, Settings.composer.perform s = (.ok settings, mid) →
    ∃ beats : ℕ, 0 < beats ∧ beats < rangeLimit ∧ orElse c.tempo settings.tempo = .int beats

include hpitch hnote htuning in
theorem agree_iff (htempo : TempoInForce s c) :
    Agree s ((frequency f).perform s) ((compile c input).perform s) ↔
      ∃ settings mid, Settings.composer.perform s = (.ok settings, mid) ∧
        ∃ n : ℕ, 0 < n ∧ orElse c.tuning settings.tuning = .int n ∧ ¬ pitch.Overflows n := by
  constructor
  · rintro (⟨tone, _, hprints⟩ | ⟨hfails, _⟩)
    -- the tone was printed, so there was a composer and it compiled the note
    · obtain ⟨settings, mid, composer, tones, hsettings, hmake, hcompile⟩ :=
        exists_settings_of_success hnote.json_eq hprints.1
      obtain ⟨_, hforce⟩ := Composer.make_eq_ok_iff.mp hmake
      refine ⟨settings, mid, hsettings, composer.tuning, composer.tuning_pos, hforce, ?_⟩
      intro hover
      rw [hnote.score_eq, Composer.compile_wholeNote_of_overflows hover] at hcompile
      cases hcompile
    · exact absurd hfails.1 (frequency_ne_failure hpitch)
  · rintro ⟨settings, mid, hsettings, n, hn, hforce, hover⟩
    obtain ⟨beats, hbeats, hrange, htempo⟩ := htempo settings mid hsettings
    obtain ⟨tone, hfrequency, hprints⟩ := compile_of_within hsettings hnote
      (make_of_force hbeats htempo hn hforce) hover hrange
    rw [← hforce] at hfrequency
    exact Or.inl ⟨tone, (frequency_settles hpitch htuning hsettings).1 _ hfrequency, hprints⟩

/-- A tuning in force that is no whole number above zero is reported where the note is compiled. -/
theorem compile_of_not_tuning (hsettings : Settings.composer.perform s = (.ok settings, mid))
    (h : ¬ ∃ n : ℕ, 0 < n ∧ orElse c.tuning settings.tuning = .int n) :
    ReportsError s ((compile c input).perform s) := by
  cases hmake : Composer.make (orElse c.tempo settings.tempo) (orElse c.tuning settings.tuning) with
  | error fault => exact compile_of_make_error hsettings hmake
  | ok composer =>
    obtain ⟨_, hforce⟩ := Composer.make_eq_ok_iff.mp hmake
    exact absurd ⟨composer.tuning, composer.tuning_pos, hforce⟩ h

include hpitch hnote htuning in
/-- Beyond the range both end in the same fault. -/
theorem both_of_overflows (htempo : TempoInForce s c)
    (hsettings : Settings.composer.perform s = (.ok settings, mid)) {n : ℕ} (hn : 0 < n)
    (hforce : orElse c.tuning settings.tuning = .int n) (hover : pitch.Overflows n) :
    ((frequency f).perform s).1 = .error (.number .tooLarge) ∧
      ((compile c input).perform s).1 = .error (.number .tooLarge) := by
  constructor
  · refine (frequency_settles hpitch htuning hsettings).2 _ ?_
    rw [hforce, pitch.frequencyOf_key]
    show ofNumber (pitch.frequency (.whole n)) = _
    rw [pitch.frequency_eq_error hn hover]
    rfl
  · obtain ⟨beats, hbeats, _, htempo⟩ := htempo settings mid hsettings
    exact compile_of_overflows hsettings hnote (make_of_force hbeats htempo hn hforce) hover

end Compared

/-- With a tempo in force that a length can be computed with, the frequency of a pitch and a whole
note of it are printed alike exactly where the settings are there and the tuning in force is a whole
number above zero that keeps the pitch within the range of binary64 numbers. Any other tuning is
reported where the note is compiled; where the frequency is asked for it is computed with, and never
reported. Beyond the range both end in the same fault. -/
theorem frequency_agrees_iff (part : String) (input : List Char) (verbose : Bool) (pitch : Pitch)
    {arguments others : List Argument} {f : FrequencyOptions} {c : CompileOptions} (s : Session)
    (hfrequency : Calls Grammars.frequencyTopic Grammars.frequency {} arguments verbose f)
    (hcompile : Calls Grammars.compileTopic Grammars.compile {} others verbose c)
    (hpitch : f.pitch = pitch.key) (hnote : CompilesNote c input pitch)
    (htuning : f.tuning = c.tuning) (htempo : TempoInForce { s with verbose } c) :
    (Agree s ((run part arguments input).perform s) ((run part others input).perform s) ↔
      ∃ settings mid, Settings.composer.perform { s with verbose } = (.ok settings, mid) ∧
        ∃ n : ℕ, 0 < n ∧ orElse c.tuning settings.tuning = .int n ∧ ¬ pitch.Overflows n) ∧
    ((run part arguments input).perform s).1 ≠ .ok failure ∧
    ∀ settings mid, Settings.composer.perform { s with verbose } = (.ok settings, mid) →
      (∀ n, frequencyOf (.ofChars pitch.key) (orElse c.tuning settings.tuning) = .ok n →
        Prints s ((run part arguments input).perform s) (numeral n)) ∧
      (∀ fault, frequencyOf (.ofChars pitch.key) (orElse c.tuning settings.tuning) = .error fault →
        ((run part arguments input).perform s).1 = .error fault) ∧
      ((¬ ∃ n : ℕ, 0 < n ∧ orElse c.tuning settings.tuning = .int n) →
        ReportsError s ((run part others input).perform s)) ∧
      ∀ n : ℕ, 0 < n → orElse c.tuning settings.tuning = .int n → pitch.Overflows n →
        ((run part arguments input).perform s).1 = .error (.number .tooLarge) ∧
          ((run part others input).perform s).1 = .error (.number .tooLarge) := by
  rw [run_frequency hfrequency part input s, run_compile hcompile part input s]
  refine ⟨agree_iff hpitch hnote htuning htempo, frequency_ne_failure hpitch, ?_⟩
  intro settings mid hsettings
  obtain ⟨hprints, hends⟩ := frequency_settles hpitch htuning hsettings
  refine ⟨hprints, hends, compile_of_not_tuning hsettings, ?_⟩
  intro n hn hforce hover
  exact both_of_overflows hpitch hnote htuning htempo hsettings hn hforce hover

/-- The session whose settings file holds the defaults. -/
def defaultSession : Session := Settings.sessionWith Settings.defaultBytes

theorem composer_defaultSession : ∃ mid, Settings.composer.perform defaultSession =
    (.ok { tempo := Settings.defaultTempo, tuning := Settings.defaultTuning }, mid) := by
  obtain ⟨mid, hperform⟩ := (Settings.isReady_sessionWith Settings.defaultBytes).composer_of_found
    (.file (Settings.read_sessionWith Settings.defaultBytes))
  rw [Settings.contentsOf_defaultBytes] at hperform
  have hnumbers : Settings.HasNoNumbers defaultSession.environment := ⟨rfl, rfl⟩
  have hfrom := Settings.composerFrom_defaults hnumbers
  exact ⟨mid, hperform.trans (congrArg (·, mid) hfrom)⟩

theorem tempoInForce_defaultSession {c : CompileOptions} (h : c.tempo = none) :
    TempoInForce defaultSession c := by
  intro settings mid hsettings
  obtain ⟨_, hdefaults⟩ := composer_defaultSession
  rw [hsettings] at hdefaults
  cases hdefaults
  refine ⟨120, by decide, lt_rangeLimit (k := 7) (by norm_num) (by norm_num), ?_⟩
  rw [h]
  rfl

/-- Under the default tuning the frequency of a pitch and a whole note of it are printed alike. -/
theorem frequency_agrees_default :
    Agree defaultSession
      ((run part (["freq", "a4"].map String.toList) []).perform defaultSession)
      ((run part (["compile", "1a4"].map String.toList) []).perform defaultSession) := by
  obtain ⟨mid, hsettings⟩ := composer_defaultSession
  have hfrequency : Calls Grammars.frequencyTopic Grammars.frequency {}
      (["freq", "a4"].map String.toList) false { pitch := "a4".toList } := ⟨_, by cbv, by cbv⟩
  have hcompile : Calls Grammars.compileTopic Grammars.compile {}
      (["compile", "1a4"].map String.toList) false { score := some "1a4".toList } :=
    ⟨_, by cbv, by cbv⟩
  exact (frequency_agrees_iff part [] false ⟨4, .a⟩ defaultSession hfrequency hcompile rfl
    ⟨rfl, rfl⟩ rfl (tempoInForce_defaultSession rfl)).1.mpr
      ⟨_, mid, hsettings, 440, by decide, rfl, Pitch.not_overflows _ Pitch.concertTuning_le⟩

/-- Under a tuning of zero the frequency is printed and the note is reported. -/
theorem frequency_of_zero_tuning :
    Prints defaultSession
        ((run part (["freq", "a4", "--a4", "0"].map String.toList) []).perform defaultSession) "0" ∧
      ReportsError defaultSession
        ((run part (["compile", "1a4", "--a4", "0"].map String.toList) []).perform
          defaultSession) := by
  obtain ⟨mid, hsettings⟩ := composer_defaultSession
  have hfrequency : Calls Grammars.frequencyTopic Grammars.frequency {}
      (["freq", "a4", "--a4", "0"].map String.toList) false
        { pitch := "a4".toList, tuning := some 0 } := ⟨_, by cbv, by cbv⟩
  have hcompile : Calls Grammars.compileTopic Grammars.compile {}
      (["compile", "1a4", "--a4", "0"].map String.toList) false
        { score := some "1a4".toList, tuning := some 0 } := ⟨_, by cbv, by cbv⟩
  have hzero : frequencyOf (.ofChars "a4".toList) (.int 0) = .ok 0 :=
    eq_ok_of_toOption (by decide +kernel)
  rw [run_frequency hfrequency, run_compile hcompile]
  constructor
  · have hgiven : ∀ s : Session, (tuningFor (some 0)).perform s = (.ok (.int 0), s) := fun _ => rfl
    have hprints : ∀ s, Prints s
        ((frequency { pitch := "a4".toList, tuning := some 0 }).perform s) (numeral 0) :=
      fun s => frequency_of_ok (hgiven s) hzero
    exact hprints _
  · refine compile_of_not_tuning hsettings ?_
    rintro ⟨n, hn, hforce⟩
    have hn' : (0 : ℤ) = n := Value.int.inj hforce
    omega

end Commands

end Ringtone
