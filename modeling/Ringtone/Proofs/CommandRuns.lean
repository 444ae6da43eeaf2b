import Ringtone.Commands
import Ringtone.Proofs.SettingsFile

/-!
# Running commands

The steps that the commands share: calling one, ending one with a message, finding the composer and
compiling the score. Each step is settled by the settings that are loaded and the environment, and
does nothing to the session but log.
-/

namespace Ringtone

open CommandLine Number

/-! ## The settings of the composer -/

namespace Settings

variable {s mid : Session} {members : Members}

/-- The whole number that a variable is, if it is one. -/
def wholeIn (environment : Environment) (name : String) : Option Int :=
  match environment.get? name with
  | none | some [] => none
  | some text => readInt? text

/-- A variable gives the whole number that it is; anything else in it is ignored with a warning. -/
theorem wholeVariable?_perform (name : String) (s : Session) :
    ∃ after, (wholeVariable? name).perform s = (.ok (wholeIn s.environment name), after) ∧
      s.Logs after := by
  have hget : (Action.getVariable? name).perform s = (.ok (s.environment.get? name), s) := rfl
  rw [wholeVariable?, Action.perform_bind_of_ok hget, wholeIn]
  cases s.environment.get? name with
  | none => exact ⟨s, rfl, .refl s⟩
  | some text =>
    cases text with
    | nil => exact ⟨s, rfl, .refl s⟩
    | cons c rest =>
      dsimp only
      cases hread : readInt? (c :: rest) with
      | some n => exact ⟨s, rfl, .refl s⟩
      | none =>
        obtain ⟨after, hwarn, hlogs⟩ := Action.warn_perform part ("Ignoring " ++ name ++ "=" ++
          String.ofList (Text.quoted (c :: rest)) ++ ": not a whole number") s
        exact ⟨after, Action.perform_bind_of_ok hwarn _, hlogs⟩

theorem quiet_wholeVariable? (name : String) : Action.Quiet (wholeVariable? name) :=
  Action.quiet_of_logs (wholeVariable?_perform name)

theorem quiet_composer : Action.Quiet composer := by
  unfold composer
  exact quiet_load.bind fun _ => (quiet_wholeVariable? _).bind fun _ =>
    (quiet_wholeVariable? _).bind fun _ => (Action.quiet_liftM _).bind fun _ =>
      (Action.quiet_liftM _).bind fun _ => Action.quiet_pure _

/-- The settings of the composer, given those of the file. -/
def composerFrom (members : Members) (environment : Environment) :
    Except Fault ComposerSettings := do
  let given := sectionOf members composerSection
  let tempo ← resolve (wholeIn environment tempoVariable) given tempoName defaultTempo
  let tuning ← resolve (wholeIn environment tuningVariable) given tuningName defaultTuning
  return { tempo, tuning }

/-- Once the file is loaded, the settings of the composer are those of the variables or else of the
file. -/
theorem composer_perform (h : load.perform s = (.ok members, mid)) :
    ∃ after, composer.perform s = (composerFrom members mid.environment, after) ∧
      mid.Logs after := by
  obtain ⟨second, htempo, hfirst⟩ := wholeVariable?_perform tempoVariable mid
  obtain ⟨third, htuning, hsecond⟩ := wholeVariable?_perform tuningVariable second
  refine ⟨third, ?_, hfirst.trans hsecond⟩
  rw [composer, Action.perform_bind_of_ok h, Action.perform_bind_of_ok htempo,
    Action.perform_bind_of_ok htuning, hfirst.environment_eq, composerFrom]
  cases resolve (wholeIn mid.environment tempoVariable) (sectionOf members composerSection)
    tempoName defaultTempo with
  | error fault => rfl
  | ok tempo =>
    cases resolve (wholeIn mid.environment tuningVariable) (sectionOf members composerSection)
      tuningName defaultTuning <;> rfl

/-- A number that has been read from a variable is short enough to be written. -/
theorem isWritable_of_wholeIn {environment : Environment} {name : String} {n : ℤ}
    (h : wholeIn environment name = some n) : (Value.int n).isWritable = true := by
  rw [Value.isWritable_int]
  rw [wholeIn] at h
  split at h
  · cases h
  · cases h
  · exact isWritable_of_readInt? h

/-- A setting can be written into messages if those it is chosen from can. -/
theorem isWritable_of_resolve {environment : Environment} {variableName name : String}
    {given fallback value : Value} (hgiven : given.isWritable = true)
    (hfallback : fallback.isWritable = true)
    (h : resolve (wholeIn environment variableName) given name fallback = .ok value) :
    value.isWritable = true := by
  unfold resolve at h
  cases hnumber : wholeIn environment variableName with
  | some n =>
    rw [hnumber] at h
    cases h
    exact isWritable_of_wholeIn hnumber
  | none =>
    rw [hnumber] at h
    dsimp only at h
    cases given with
    | object inner =>
      rw [settingOf] at h
      rw [← Except.ok.inj h]
      cases hget : Members.get? inner (Text.Points.ofString name) with
      | none => exact hfallback
      | some found => exact Members.isWritable_of_get? hgiven hget
    | _ => cases h

theorem isWritable_sectionOf (h : (Value.object members).isWritable = true) (name : String) :
    (sectionOf members name).isWritable = true := by
  rw [sectionOf]
  cases hget : members.get? (Text.Points.ofString name) with
  | none => rfl
  | some found => exact Members.isWritable_of_get? h hget

/-- The settings of the composer can be written into messages. -/
theorem isWritable_of_composer {settings : ComposerSettings}
    (h : composer.perform s = (.ok settings, mid)) :
    settings.tempo.isWritable = true ∧ settings.tuning.isWritable = true := by
  obtain ⟨members, loaded, hload, _⟩ := Action.perform_bind_eq_ok_iff.mp h
  obtain ⟨after, hperform, _⟩ := composer_perform hload
  rw [hperform] at h
  have hfrom := (Prod.mk.inj h).1
  have hsection := isWritable_sectionOf (isWritable_of_load hload) composerSection
  rw [composerFrom] at hfrom
  cases htempo : resolve (wholeIn loaded.environment tempoVariable)
      (sectionOf members composerSection) tempoName defaultTempo with
  | error fault => rw [htempo] at hfrom; cases hfrom
  | ok tempo =>
    cases htuning : resolve (wholeIn loaded.environment tuningVariable)
        (sectionOf members composerSection) tuningName defaultTuning with
    | error fault => rw [htempo, htuning] at hfrom; cases hfrom
    | ok tuning =>
      rw [htempo, htuning] at hfrom
      cases hfrom
      exact ⟨isWritable_of_resolve hsection (by decide +kernel) htempo,
        isWritable_of_resolve hsection (by decide +kernel) htuning⟩

/-- Neither the tempo nor the tuning is given by a variable. -/
structure HasNoNumbers (environment : Environment) : Prop where
  tempo : wholeIn environment tempoVariable = none
  tuning : wholeIn environment tuningVariable = none

/-- Without variables, the default settings give the default tempo and tuning. -/
theorem composerFrom_defaults {environment : Environment} (h : HasNoNumbers environment) :
    composerFrom defaults environment =
      .ok { tempo := defaultTempo, tuning := defaultTuning } := by
  rw [composerFrom, h.tempo, h.tuning]
  rfl

theorem rendering_perform (h : load.perform s = (.ok members, mid)) :
    rendering.perform s = (.ok (sectionOf members renderSection), mid) := by
  rw [rendering, Action.perform_bind_of_ok h]
  rfl

end Settings

namespace Commands

variable {s mid after : Session} {members : Members}

/-! ## The tones of a score -/

/-- The composer for a score, given the settings of the file. -/
def composerGiven (options : ScoreOptions) (members : Members) (environment : Environment) :
    Except Fault Composer := do
  let settings ← Settings.composerFrom members environment
  Composer.make (orElse options.tempo settings.tempo) (orElse options.tuning settings.tuning)

/-- The composer for a score where the file has the default settings. -/
def composerByDefault (options : ScoreOptions) : Except Fault Composer :=
  Composer.make (orElse options.tempo Settings.defaultTempo)
    (orElse options.tuning Settings.defaultTuning)

theorem composerGiven_defaults {environment : Environment}
    (h : Settings.HasNoNumbers environment) (options : ScoreOptions) :
    composerGiven options Settings.defaults environment = composerByDefault options := by
  rw [composerGiven, Settings.composerFrom_defaults h]
  rfl

/-- The composer of a command is that of the loaded settings and the environment. -/
theorem composerFor_perform (options : ScoreOptions)
    (h : Settings.load.perform s = (.ok members, mid)) :
    ∃ after, (composerFor options).perform s =
      (composerGiven options members mid.environment, after) ∧ mid.Logs after := by
  rw [composerFor, composerGiven]
  exact Action.exists_perform_bind (Settings.composer_perform h) fun _ mid =>
    Action.exists_perform_ofExcept _ mid

theorem quiet_composerFor (options : ScoreOptions) : Action.Quiet (composerFor options) := by
  unfold composerFor
  exact Settings.quiet_composer.bind fun _ => Action.quiet_ofExcept _

/-- Looking up the pitches for the first time is noted, and nothing else happens. -/
theorem lookUpPitches_perform (s : Session) :
    ∃ after, lookUpPitches.perform s = (.ok ⟨⟩, after) ∧ s.Logs after := by
  rw [lookUpPitches, Action.perform_bind_get]
  split_ifs
  · exact ⟨s, rfl, .refl s⟩
  · obtain ⟨after, hdebug, hlogs⟩ := Action.debug_perform "pycomposer.pitch"
      ("Built pitch table with " ++ numeral Pitch.all.length ++ " entries") s
    refine ⟨{ after with pitchesKnown := true }, Action.perform_bind_of_ok hdebug _, ?_⟩
    obtain ⟨lines, _, rfl⟩ := hlogs
    exact ⟨lines, true, rfl⟩

/-- Compiling a score once the pitches have been looked up. -/
def compileKnown (composer : Composer) (score : List Char) : Action (List Tone) := do
  let tones ← ofExcept (composer.compile score)
  Action.debug "pycomposer.composer"
    ("Compiled " ++ numeral tones.length ++ " notes at " ++ numeral composer.tempo.beats
      ++ " BPM, A4=" ++ numeral composer.tuning ++ " Hz")
  return tones

theorem compileKnown_perform (composer : Composer) (score : List Char) (s : Session) :
    ∃ after, (compileKnown composer score).perform s = (composer.compile score, after) ∧
      s.Logs after := by
  rw [← bind_pure (composer.compile score)]
  refine Action.exists_perform_bind (Action.exists_perform_ofExcept _ s) fun tones mid => ?_
  exact Action.exists_perform_bind (Action.debug_perform _ _ mid) fun _ last =>
    ⟨last, rfl, .refl last⟩

/-- Compiling as an action has the outcome of compiling, and logs. -/
theorem compileScore_perform (composer : Composer) (score : List Char) (s : Session) :
    ∃ after, (compileScore composer score).perform s = (composer.compile score, after) ∧
      s.Logs after := by
  have hsplit : compileScore composer score = if Score.namesPitch score then
      lookUpPitches >>= fun _ => compileKnown composer score
    else compileKnown composer score := rfl
  rw [hsplit]
  split_ifs
  · exact Action.exists_perform_bind (lookUpPitches_perform s) fun _ mid =>
      compileKnown_perform composer score mid
  · exact compileKnown_perform composer score s

theorem quiet_compileScore (composer : Composer) (score : List Char) :
    Action.Quiet (compileScore composer score) :=
  Action.quiet_of_logs (compileScore_perform composer score)

/-- The tones of a score, given the settings of the file. -/
def tonesGiven (options : ScoreOptions) (members : Members) (environment : Environment)
    (score : List Char) : Except Fault (List Tone) := do
  (← composerGiven options members environment).compile score

theorem tonesGiven_eq_ok_iff {options : ScoreOptions} {environment : Environment}
    {score : List Char} {tones : List Tone} :
    tonesGiven options members environment score = .ok tones ↔ ∃ composer,
      composerGiven options members environment = .ok composer ∧
        composer.compile score = .ok tones := by
  rw [tonesGiven]
  cases composerGiven options members environment with
  | error fault => simp [bind, Except.bind]
  | ok composer => simp [bind, Except.bind]

/-- The tones of a command are those of the loaded settings and the environment. -/
theorem tones_perform (options : ScoreOptions) (score : List Char)
    (h : Settings.load.perform s = (.ok members, mid)) :
    ∃ after, (composerFor options >>= fun composer => compileScore composer score).perform s =
      (tonesGiven options members mid.environment score, after) ∧ mid.Logs after := by
  exact Action.exists_perform_bind (composerFor_perform options h) fun composer after =>
    compileScore_perform composer score after

/-! ## Ending with a message -/

section Reporting

variable {α : Type} {reported : Fault → Option String} {first : Action α} {next : α → Action Nat}

/-- An action that is tried has its outcome as the result, a fault as well. -/
theorem attempt_perform {outcome : Except Fault α} (h : first.perform s = (outcome, after)) :
    (tryCatch (.ok <$> first) (fun fault => return .error fault) :
      Action (Except Fault α)).perform s = (.ok outcome, after) := by
  rw [map_eq_pure_bind, Action.perform_tryCatch]
  cases outcome with
  | ok a =>
    rw [Action.perform_bind_of_ok h]
    rfl
  | error fault =>
    rw [Action.perform_bind_of_error h]
    rfl

/-- Without a fault the command goes on. -/
theorem reporting_of_ok {a : α} (h : first.perform s = (.ok a, after)) :
    (reporting reported first next).perform s = (next a).perform after := by
  rw [reporting, Action.perform_bind_of_ok (attempt_perform h)]

/-- A fault that there are words for ends the command with a message. -/
theorem reporting_of_message {fault : Fault} {message : String}
    (h : first.perform s = (.error fault, after)) (hwords : reported fault = some message) :
    (reporting reported first next).perform s = (fail message).perform after := by
  rw [reporting, Action.perform_bind_of_ok (attempt_perform h)]
  dsimp only
  rw [hwords]

/-- A fault that there are no words for ends the program. -/
theorem reporting_of_silent {fault : Fault} (h : first.perform s = (.error fault, after))
    (hwords : reported fault = none) :
    (reporting reported first next).perform s = (.error fault, after) := by
  rw [reporting, Action.perform_bind_of_ok (attempt_perform h)]
  dsimp only
  rw [hwords]
  rfl

/-- Only what comes of the first action counts. -/
theorem reporting_congr {other : Action α} (h : first.perform s = other.perform mid) :
    (reporting reported first next).perform s = (reporting reported other next).perform mid := by
  cases hother : other.perform mid with
  | mk outcome after =>
    cases outcome with
    | ok a => rw [reporting_of_ok (h.trans hother), reporting_of_ok hother]
    | error fault =>
      cases hwords : reported fault with
      | some message =>
        rw [reporting_of_message (h.trans hother) hwords, reporting_of_message hother hwords]
      | none => rw [reporting_of_silent (h.trans hother) hwords, reporting_of_silent hother hwords]

end Reporting

/-- A command ends with a message: what was added to the error output are lines, of which the last
is the message, and nothing else has changed. -/
def EndsWithError (before after : Session) : Prop :=
  ∃ (lines : List String) (message : String) (pitchesKnown : Bool),
    after = { before with
      errors := before.errors ++ unlines (lines ++ ["Error: " ++ message]), pitchesKnown }

/-- What was logged before counts among the lines before the message. -/
theorem EndsWithError.of_logs (h : EndsWithError mid after) (hlogs : s.Logs mid) :
    EndsWithError s after := by
  obtain ⟨lines, message, known, rfl⟩ := h
  obtain ⟨earlier, _, rfl⟩ := hlogs
  exact ⟨earlier ++ lines, message, known, by simp [unlines_append, String.append_assoc]⟩

/-- A command that fails says so on the error output. -/
theorem fail_perform (message : String) (hlogs : s.Logs mid) :
    ∃ after, (fail message).perform mid = (.ok failure, after) ∧ EndsWithError s after := by
  obtain ⟨lines, known, rfl⟩ := hlogs
  refine ⟨_, rfl, lines, message, known, ?_⟩
  simp [unlines, String.append_assoc]

/-! ## Calling a command -/

section Calling

variable {σ : Type} {topic : Topic} {grammar : Grammar σ} {initial options : σ}
  {arguments : List Argument} {verbose : Bool}

/-- The arguments call a command, none are left over, and these are the options that it is given. -/
def Calls (topic : Topic) (grammar : Grammar σ) (initial : σ) (arguments : List Argument)
    (verbose : Bool) (options : σ) : Prop :=
  ∃ own, Grammars.program.read {} arguments = .ok ({ verbose, command := some (topic, own) }, []) ∧
    grammar.read initial own = .ok (options, [])

/-- A command is run with the options that its arguments give. -/
theorem runCommand_perform {own : List Argument} {run : σ → Action Nat}
    (h : grammar.read initial own = .ok (options, [])) (s : Session) :
    (runCommand grammar initial verbose [] own run).perform s =
      (run options).perform { s with verbose } := by
  rw [runCommand, h]
  dsimp only [List.nil_append]
  rw [Action.perform_bind_modify]

theorem run_eq {own : List Argument} (part : String) (input : List Char)
    (h : Grammars.program.read {} arguments = .ok ({ verbose, command := some (topic, own) }, [])) :
    run part arguments input = dispatch part topic verbose [] own input := by
  rw [run, h]

/-- The first word of the arguments chooses the command; each is tried in turn. -/
theorem run_compile {options : CompileOptions}
    (h : Calls Grammars.compileTopic Grammars.compile {} arguments verbose options) (part : String)
    (input : List Char) (s : Session) :
    (run part arguments input).perform s = (compile options input).perform { s with verbose } := by
  obtain ⟨own, hprogram, hread⟩ := h
  rw [run_eq part input hprogram, dispatch, if_pos rfl, runCommand_perform hread]

theorem run_render {options : RenderOptions}
    (h : Calls Grammars.renderTopic Grammars.render {} arguments verbose options) (part : String)
    (input : List Char) (s : Session) :
    (run part arguments input).perform s =
      (render part options input).perform { s with verbose } := by
  obtain ⟨own, hprogram, hread⟩ := h
  rw [run_eq part input hprogram, dispatch, if_neg (by decide), if_pos rfl,
    runCommand_perform hread]

theorem run_frequency {options : FrequencyOptions}
    (h : Calls Grammars.frequencyTopic Grammars.frequency {} arguments verbose options)
    (part : String) (input : List Char) (s : Session) :
    (run part arguments input).perform s = (frequency options).perform { s with verbose } := by
  obtain ⟨own, hprogram, hread⟩ := h
  rw [run_eq part input hprogram, dispatch, if_neg (by decide), if_neg (by decide), if_pos rfl,
    runCommand_perform hread]

theorem run_rest {options : RestOptions}
    (h : Calls Grammars.restTopic Grammars.rest {} arguments verbose options) (part : String)
    (input : List Char) (s : Session) :
    (run part arguments input).perform s = (rest options).perform { s with verbose } := by
  obtain ⟨own, hprogram, hread⟩ := h
  rw [run_eq part input hprogram, dispatch, if_neg (by decide), if_neg (by decide),
    if_neg (by decide), if_pos rfl, runCommand_perform hread]

theorem run_settings (h : Calls Grammars.settingsTopic Grammars.settings () arguments verbose ())
    (part : String) (input : List Char) (s : Session) :
    (run part arguments input).perform s = settings.perform { s with verbose } := by
  obtain ⟨own, hprogram, hread⟩ := h
  rw [run_eq part input hprogram, dispatch, if_neg (by decide), if_neg (by decide),
    if_neg (by decide), if_neg (by decide), runCommand_perform hread]

end Calling

/-! ## Printing tones -/

/-- Printing tone after tone prints their lines. -/
theorem forM_say_perform (tones : List Tone) (s : Session) :
    (tones.forM fun tone => Action.say (toneLine tone)).perform s =
      (.ok ⟨⟩, { s with output := s.output ++ unlines (tones.map toneLine) }) := by
  induction tones generalizing s with
  | nil => simp [unlines, Action.perform_pure]
  | cons tone rest ih =>
    have hsay : (Action.say (toneLine tone)).perform s =
        (.ok ⟨⟩, { s with output := s.output ++ toneLine tone ++ "\n" }) := rfl
    have hcons : ((tone :: rest).forM fun tone => Action.say (toneLine tone)) =
        Action.say (toneLine tone) >>= fun _ => rest.forM fun tone => Action.say (toneLine tone) :=
      rfl
    rw [hcons, Action.perform_bind_of_ok hsay, ih]
    simp [unlines, String.append_assoc]

/-- What stands before a mark is told by where the mark first stands. -/
theorem eq_of_append_mark {mark : Char} {first second rest more : List Char}
    (hfirst : mark ∉ first) (hsecond : mark ∉ second)
    (h : first ++ mark :: rest = second ++ mark :: more) : first = second ∧ rest = more := by
  induction first generalizing second with
  | nil =>
    cases second with
    | nil => exact ⟨rfl, (List.cons.inj h).2⟩
    | cons c others => exact absurd (List.cons.inj h).1 (List.ne_of_not_mem_cons hsecond)
  | cons c others ih =>
    cases second with
    | nil => exact absurd (List.cons.inj h).1.symm (List.ne_of_not_mem_cons hfirst)
    | cons d later =>
      obtain ⟨rfl, hlater⟩ := List.cons.inj h
      obtain ⟨rfl, hrest⟩ :=
        ih (List.not_mem_of_not_mem_cons hfirst) (List.not_mem_of_not_mem_cons hsecond) hlater
      exact ⟨rfl, hrest⟩

/-- A numeral has digits and perhaps a minus sign, and no other character. -/
theorem notMem_numeral {c : Char} (hminus : c ≠ '-') (hdigit : Text.isAsciiDigit c = false)
    (n : ℤ) : c ∉ (numeral n).toList := by
  intro h
  rcases mem_numeral h with rfl | hc
  · exact hminus rfl
  · rw [hdigit] at hc
    cases hc

@[simp]
theorem toList_toneLine (tone : Tone) : (toneLine tone).toList =
    (numeral tone.frequency).toList ++ ' ' :: (numeral tone.duration).toList := by
  simp [toneLine]

theorem newline_notMem_toneLine (tone : Tone) : '\n' ∉ (toneLine tone).toList := by
  have hnumeral := notMem_numeral (c := '\n') (by decide) (by decide)
  rw [toList_toneLine, List.mem_append, List.mem_cons]
  rintro (h | h | h)
  · exact hnumeral _ h
  · exact absurd h (by decide)
  · exact hnumeral _ h

/-- Two lines are the same only for the same tone, since no numeral has a blank. -/
theorem toneLine_injective : Function.Injective toneLine := by
  rintro ⟨frequency, duration⟩ ⟨otherFrequency, otherDuration⟩ h
  have hchars := congrArg String.toList h
  have hblank := notMem_numeral (c := ' ') (by decide) (by decide)
  rw [toList_toneLine, toList_toneLine] at hchars
  obtain ⟨hfrequency, hduration⟩ := eq_of_append_mark (hblank _) (hblank _) hchars
  have hf := numeral_injective (String.toList_injective hfrequency)
  have hd := numeral_injective (String.toList_injective hduration)
  rw [Tone.mk.injEq]
  exact ⟨hf, by exact_mod_cast hd⟩

/-- The printed lines tell the tones. -/
theorem eq_of_unlines_toneLine {tones others : List Tone}
    (h : unlines (tones.map toneLine) = unlines (others.map toneLine)) : tones = others := by
  have hcons : ∀ (tone : Tone) (rest : List Tone), (unlines ((tone :: rest).map toneLine)).toList =
      (toneLine tone).toList ++ '\n' :: (unlines (rest.map toneLine)).toList := by
    simp [unlines]
  induction tones generalizing others with
  | nil =>
    cases others with
    | nil => rfl
    | cons other more =>
      have hchars := congrArg String.toList h
      rw [hcons] at hchars
      simp [unlines] at hchars
  | cons tone rest ih =>
    have hchars := congrArg String.toList h
    rw [hcons] at hchars
    cases others with
    | nil => simp [unlines] at hchars
    | cons other more =>
      rw [hcons] at hchars
      obtain ⟨hline, hrest⟩ :=
        eq_of_append_mark (newline_notMem_toneLine tone) (newline_notMem_toneLine other) hchars
      rw [toneLine_injective (String.toList_injective hline), ih (String.toList_injective hrest)]

/-- Where the settings are not loaded no score is compiled. -/
theorem tones_perform_of_error (options : ScoreOptions) (score : List Char) {fault : Fault}
    (h : Settings.load.perform s = (.error fault, mid)) :
    (composerFor options >>= fun composer => compileScore composer score).perform s =
      (.error fault, mid) := by
  have hcomposer : (composerFor options).perform s = (.error fault, mid) := by
    rw [composerFor, Settings.composer, Action.perform_bind_of_error]
    exact Action.perform_bind_of_error h _
  exact Action.perform_bind_of_error hcomposer _

/-- A command whose first action fails does not end well. -/
theorem not_success_of_error {α : Type} {reported : Fault → Option String} {first : Action α}
    {next : α → Action Nat} {fault : Fault} (h : first.perform s = (.error fault, mid)) :
    (reporting reported first next).perform s ≠ (.ok success, after) := by
  cases hwords : reported fault with
  | none =>
    rw [reporting_of_silent h hwords]
    simp
  | some message =>
    obtain ⟨last, hfail, _⟩ := fail_perform message (.refl mid)
    rw [reporting_of_message h hwords, hfail]
    simp [success, failure]

/-- The tones of a score are printed line by line. -/
theorem compile_of_tones {options : CompileOptions} {input : List Char} {tones : List Tone}
    (hjson : options.json = false)
    (h : (composerFor options.toScoreOptions >>= fun composer =>
      compileScore composer (scoreOf options.toScoreOptions input)).perform s = (.ok tones, mid)) :
    (compile options input).perform s =
      (.ok success, { mid with output := mid.output ++ unlines (tones.map toneLine) }) := by
  rw [compile, reporting_of_ok h, if_neg (by rw [hjson]; decide),
    Action.perform_bind_of_ok (forM_say_perform tones mid)]
  rfl

/-- When tones have been printed, the settings were loaded and these are the tones of the score. -/
theorem compile_eq_success {options : CompileOptions} {input : List Char}
    (hjson : options.json = false)
    (h : (compile options input).perform s = (.ok success, after)) :
    ∃ members loaded tones, Settings.load.perform s = (.ok members, loaded) ∧
      tonesGiven options.toScoreOptions members loaded.environment
        (scoreOf options.toScoreOptions input) = .ok tones ∧
      ({ loaded with output := loaded.output ++ unlines (tones.map toneLine) }).Logs after := by
  cases hload : Settings.load.perform s with
  | mk outcome loaded =>
    cases outcome with
    | error fault =>
      have herror := tones_perform_of_error options.toScoreOptions
        (scoreOf options.toScoreOptions input) hload
      exact absurd h (not_success_of_error herror)
    | ok members =>
      obtain ⟨mid, htones, hlogs⟩ :=
        tones_perform options.toScoreOptions (scoreOf options.toScoreOptions input) hload
      cases hgiven : tonesGiven options.toScoreOptions members loaded.environment
          (scoreOf options.toScoreOptions input) with
      | error fault =>
        rw [hgiven] at htones
        exact absurd h (not_success_of_error htones)
      | ok tones =>
        rw [hgiven] at htones
        rw [compile_of_tones hjson htones] at h
        cases h
        obtain ⟨lines, known, rfl⟩ := hlogs
        exact ⟨members, loaded, tones, rfl, hgiven, lines, known, rfl⟩

end Commands

end Ringtone
