import Ringtone.Proofs.FrequencyRuns
import Ringtone.Proofs.RenderRuns

/-!
# Settings in force

A number of the command line counts before a variable of the environment, that before what the file
gives, and that before the default; and this for the tempo and the tuning each on its own. A command
that works with the settings works with these, whichever of them it needs. Where the settings cannot
be loaded because of the files, every command that loads them ends; a frequency and a rest do
without them when they are given a number.
-/

namespace Ringtone

open CommandLine Number Text

namespace Settings

variable {s made : Session} {inner : Members}

/-! ## What the file gives the composer -/

/-- What the file gives the composer, where none is found or it holds an object that has, in the
place of the section of the composer, nothing or an object. -/
inductive GivesComposer (s : Session) : Members → Prop
  | missing (h : s.files.isPresent s.current (Places.settingsFile s.environment) ≠ .ok true) :
    GivesComposer s []
  | absent {bytes : List UInt8} {given : Members}
      (hread : s.files.read s.current (Places.settingsFile s.environment) = .ok bytes)
      (hobject : IsObjectText s.nesting bytes given)
      (h : given.get? (Points.ofString composerSection) = none) : GivesComposer s []
  | object {bytes : List UInt8} {given inner : Members}
      (hread : s.files.read s.current (Places.settingsFile s.environment) = .ok bytes)
      (hobject : IsObjectText s.nesting bytes given)
      (h : given.get? (Points.ofString composerSection) = some (.object inner)) :
    GivesComposer s inner

/-- The section of the composer as it is loaded. -/
theorem sectionOf_of_gives {given : Members}
    (h : given.get? (Points.ofString composerSection) = some (.object inner)) :
    sectionOf (overlaid given) composerSection =
      .object (Members.covered composerDefaults inner) := by
  refine sectionOf_of_get? ?_
  rw [get?_overlaid defaults_composer, h]
  rfl

theorem sectionOf_of_absent {given : Members}
    (h : given.get? (Points.ofString composerSection) = none) :
    sectionOf (overlaid given) composerSection = .object (Members.covered composerDefaults []) := by
  refine sectionOf_of_get? ?_
  rw [get?_overlaid defaults_composer, h]
  rfl

/-- Loading where the file gives the composer something: the settings are had, with what it gives
laid over the defaults. -/
theorem exists_load_of_gives (hmade : (Action.ensureDirectory
      (Places.settingsDirectory s.environment)).perform s = (.ok (), made))
    (hroom : FileHasRoom s.environment) (hgives : GivesComposer made inner) :
    ∃ members loaded, load.perform s = (.ok members, loaded) ∧ IsReady loaded ∧
      Found loaded (.ok members) ∧ loaded.environment = s.environment ∧
      sectionOf members composerSection = .object (Members.covered composerDefaults inner) := by
  obtain ⟨hready, henvironment⟩ := isReady_of_ensureDirectory hmade
  have hload : ∃ members loaded, load.perform made = (.ok members, loaded) ∧
      sectionOf members composerSection = .object (Members.covered composerDefaults inner) := by
    cases hgives with
    | missing hmissing =>
      rw [← henvironment] at hroom
      obtain ⟨loaded, hload⟩ := hready.load_of_missing (hready.isPresent_eq_false hroom hmissing)
      exact ⟨_, loaded, hload, rfl⟩
    | absent hread hobject h =>
      obtain ⟨loaded, hload, _⟩ := hready.load_of_found (.file hread)
      rw [contentsOf_of_isObjectText hobject] at hload
      exact ⟨_, loaded, hload, sectionOf_of_absent h⟩
    | object hread hobject h =>
      obtain ⟨loaded, hload, _⟩ := hready.load_of_found (.file hread)
      rw [contentsOf_of_isObjectText hobject] at hload
      exact ⟨_, loaded, hload, sectionOf_of_gives h⟩
  obtain ⟨members, loaded, hload, hsection⟩ := hload
  obtain ⟨hlater, hfound, hfiles⟩ := hready.load_ok hload
  have hsame : loaded.environment = made.environment := by
    rcases hfiles with hlogs | ⟨_, hwrite⟩
    · exact hlogs.environment_eq
    · rw [(Action.writeFile_eq_ok_iff.mp hwrite).2.2]
  exact ⟨members, loaded, (load_of_made hmade).trans hload, hlater, hfound,
    hsame.trans henvironment, hsection⟩

/-! ## The settings in force -/

/-- A setting as it is in force: the number that is given, else that of the variable, else what the
file gives, else the default. -/
def inForce (number : Option ℤ) (environment : Environment) (inner : Members)
    (variableName name : String) (fallback : Value) : Value :=
  Commands.orElse number (Commands.orElse (wholeIn environment variableName)
    ((inner.get? (Points.ofString name)).getD fallback))

/-- The tempo in force. -/
def tempoOver (number : Option ℤ) (environment : Environment) (inner : Members) : Value :=
  inForce number environment inner tempoVariable tempoName defaultTempo

/-- The tuning in force. -/
def tuningOver (number : Option ℤ) (environment : Environment) (inner : Members) : Value :=
  inForce number environment inner tuningVariable tuningName defaultTuning

/-- Two environments are the same but for one variable, and two sections but for one setting. -/
structure AlikeBut (variableName name : String) (environment other : Environment)
    (inner another : Members) : Prop where
  get?_environment : ∀ found, found ≠ variableName → environment.get? found = other.get? found
  get?_inner : ∀ found, found ≠ Points.ofString name → inner.get? found = another.get? found

theorem inForce_of_alikeBut {environment other : Environment} {inner another : Members}
    {leftOut leftOutName variableName name : String}
    (h : AlikeBut leftOut leftOutName environment other inner another)
    (hvariable : variableName ≠ leftOut)
    (hname : Points.ofString name ≠ Points.ofString leftOutName)
    (number : Option ℤ) (fallback : Value) :
    inForce number environment inner variableName name fallback =
      inForce number other another variableName name fallback := by
  have hwhole : wholeIn environment variableName = wholeIn other variableName := by
    rw [wholeIn, h.get?_environment _ hvariable, wholeIn]
  rw [inForce, hwhole, h.get?_inner _ hname, inForce]

theorem tempoOver_of_alikeBut {environment other : Environment} {inner another : Members}
    (h : AlikeBut tuningVariable tuningName environment other inner another)
    (number : Option ℤ) : tempoOver number environment inner = tempoOver number other another :=
  inForce_of_alikeBut h (by decide) (by decide) number _

theorem tuningOver_of_alikeBut {environment other : Environment} {inner another : Members}
    (h : AlikeBut tempoVariable tempoName environment other inner another)
    (number : Option ℤ) : tuningOver number environment inner = tuningOver number other another :=
  inForce_of_alikeBut h (by decide) (by decide) number _

/-- The settings in force where no number is given. -/
def settingsOver (environment : Environment) (inner : Members) : ComposerSettings :=
  { tempo := tempoOver none environment inner, tuning := tuningOver none environment inner }

theorem composerFrom_of_covered {members : Members} {environment : Environment}
    (h : sectionOf members composerSection = .object (Members.covered composerDefaults inner)) :
    composerFrom members environment = .ok (settingsOver environment inner) := by
  have htempo : composerDefaults.get? (Points.ofString tempoName) = some defaultTempo := rfl
  have htuning : composerDefaults.get? (Points.ofString tuningName) = some defaultTuning := rfl
  rw [composerFrom_of_object h, Members.get?_covered htempo, Members.get?_covered htuning]
  rfl

theorem exists_composer_of_load {members : Members} {loaded : Session}
    (hload : load.perform s = (.ok members, loaded)) {environment : Environment}
    (henvironment : loaded.environment = environment)
    (hsection : sectionOf members composerSection =
      .object (Members.covered composerDefaults inner)) :
    ∃ mid, composer.perform s = (.ok (settingsOver environment inner), mid) ∧ loaded.Logs mid := by
  obtain ⟨mid, hcomposer, hlogs⟩ := composer_perform hload
  rw [composerFrom_of_covered hsection, henvironment] at hcomposer
  exact ⟨mid, hcomposer, hlogs⟩

end Settings

namespace Commands

variable {s mid : Session} {inner : Members}

/-! ## The commands once the settings are there -/

/-- What a command works on: the session as it is, or as it is after the settings have been loaded.
Lines may have been logged. -/
def Settled (s mid : Session) : Prop :=
  ∃ base, (base = s ∨ ∃ members, Settings.load.perform s = (.ok members, base)) ∧ base.Logs mid

theorem Settled.refl (s : Session) : Settled s s := ⟨s, .inl rfl, .refl s⟩

theorem Settled.reports (h : Settled s mid) : s.Reports mid := by
  obtain ⟨base, rfl | ⟨members, hload⟩, hlogs⟩ := h
  · exact hlogs.reports
  · exact (Settings.quiet_load.reports hload).trans hlogs.reports

/-- Printing tones. -/
def printTones (json : Bool) (tones : List Tone) : Action Nat := do
  if json then Action.say (Json.line (.list (tones.map Sound.toneValue)))
  else tones.forM fun tone => Action.say (toneLine tone)
  return success

/-- The tones of a score at a tempo and under a tuning. -/
def tonesAt (tempo tuning : Value) (score : List Char) : Action (List Tone) := do
  compileScore (← ofExcept (Composer.make tempo tuning)) score

/-- Compiling a score at a tempo and under a tuning. -/
def compileAt (tempo tuning : Value) (options : CompileOptions) (input : List Char) : Action Nat :=
  reporting Fault.message? (tonesAt tempo tuning (scoreOf options.toScoreOptions input))
    (printTones options.json)

/-- Rendering tones, with what the file gives for rendering. -/
def renderFrom (tones : Action (List Tone)) (given : Value) (part : String)
    (options : RenderOptions) : Action Nat := do
  let style ← ofExcept (styleFor options.style given)
  let rate ← ofExcept (rateFor options.rate given)
  let gap ← ofExcept (gapFor options.gap given)
  reporting Fault.message?
    (do
      let tones ← tones
      let samples ← ofExcept (Sound.renderTones tones rate style gap)
      return (tones, samples))
    fun (tones, samples) => deliver part options.path rate style tones samples

/-- Rendering a score at a tempo and under a tuning, with what the file gives for rendering. -/
def renderAt (tempo tuning given : Value) (part : String) (options : RenderOptions)
    (input : List Char) : Action Nat :=
  renderFrom (tonesAt tempo tuning (scoreOf options.toScoreOptions input)) given part options

/-- Telling the frequency of a pitch under a tuning. -/
def frequencyAt (tuning : Value) (pitch : Argument) : Action Nat :=
  reporting noteMessage? (do lookUpPitches; ofExcept (frequencyOf (.ofChars pitch) tuning))
    fun frequency => do
      Action.say (numeral frequency)
      return success

/-- Telling the length of a fraction at a tempo. -/
def restAt (tempo : Value) (fraction : ℤ) : Action Nat :=
  reporting noteMessage? (ofExcept (durationOf (.int fraction) tempo)) fun duration => do
    Action.say (numeral duration)
    return success

/-- Showing a tempo and a tuning. -/
def settingsAt (tempo tuning : Value) : Action Nat := do
  let path := Places.settingsFile (← get).environment
  Action.say ("Config file: " ++ path.toString)
  Action.print (.ofString "Tempo: " ++ tempo.display ++ .ofString " BPM")
  Action.print (.ofString "A4 frequency: " ++ tuning.display ++ .ofString " Hz")
  return success

section Settled

variable {settings : Settings.ComposerSettings}

/-- A setting of the composer: the number that is given, or else that of the settings. -/
def settingFor (number : Option ℤ) (setting : Settings.ComposerSettings → Value) : Action Value :=
  match number with
  | some n => pure (.int n)
  | none => do return setting (← Settings.composer)

theorem frequency_eq_settingFor (options : FrequencyOptions) : frequency options =
    settingFor options.tuning (·.tuning) >>= fun tuning => frequencyAt tuning options.pitch :=
  frequency_eq options

theorem rest_eq_settingFor (options : RestOptions) : rest options =
    settingFor options.tempo (·.tempo) >>= fun tempo => restAt tempo options.fraction := by
  unfold rest settingFor
  cases options.tempo with
  | some n => rfl
  | none => exact (bind_assoc _ _ _).symm

theorem render_eq_renderFrom (part : String) (options : RenderOptions) (input : List Char) :
    render part options input = Settings.rendering >>= fun given =>
      renderFrom (composerFor options.toScoreOptions >>= fun composer =>
        compileScore composer (scoreOf options.toScoreOptions input)) given part options := by
  unfold renderFrom
  simp only [bind_assoc]
  rfl

/-- Rendering tones asks for them only once style, rate and gap are known. -/
theorem renderFrom_perform {tones others : Action (List Tone)}
    (h : tones.perform s = others.perform mid) (given : Value) (part : String)
    (options : RenderOptions) : ∃ later, (later = s ∨ later = mid) ∧
      (renderFrom tones given part options).perform s =
        (renderFrom others given part options).perform later := by
  unfold renderFrom
  cases hstyle : styleFor options.style given with
  | error fault => exact ⟨s, .inl rfl, rfl⟩
  | ok style =>
    cases hrate : rateFor options.rate given with
    | error fault => exact ⟨s, .inl rfl, rfl⟩
    | ok rate =>
      cases hgap : gapFor options.gap given with
      | error fault => exact ⟨s, .inl rfl, rfl⟩
      | ok gap =>
        exact ⟨mid, .inr rfl, reporting_congr (Action.perform_bind_congr h _)⟩

/-- A setting that no number is given for is that of the settings, which are loaded for it. -/
theorem settingFor_perform (hload : ∃ members base, Settings.load.perform s = (.ok members, base) ∧
      base.Logs mid) (hsettings : Settings.composer.perform s = (.ok settings, mid))
    (number : Option ℤ) (setting : Settings.ComposerSettings → Value) :
    ∃ later, Settled s later ∧
      (settingFor number setting).perform s = (.ok (orElse number (setting settings)), later) := by
  cases number with
  | some n => exact ⟨s, .refl s, rfl⟩
  | none =>
    obtain ⟨members, base, hload, hlogs⟩ := hload
    exact ⟨mid, ⟨base, .inr ⟨members, hload⟩, hlogs⟩, Action.perform_bind_of_ok hsettings _⟩

variable (hsettings : Settings.composer.perform s = (.ok settings, mid))
include hsettings

theorem tones_perform_at (options : ScoreOptions) (score : List Char) :
    (composerFor options >>= fun composer => compileScore composer score).perform s =
      (tonesAt (orElse options.tempo settings.tempo) (orElse options.tuning settings.tuning)
        score).perform mid := by
  rw [composerFor, bind_assoc, Action.perform_bind_of_ok hsettings]
  rfl

theorem compile_perform_at (options : CompileOptions) (input : List Char) :
    (compile options input).perform s = (compileAt (orElse options.tempo settings.tempo)
      (orElse options.tuning settings.tuning) options input).perform mid :=
  reporting_congr (tones_perform_at hsettings options.toScoreOptions _)

theorem settings_perform_at :
    Commands.settings.perform s = (settingsAt settings.tempo settings.tuning).perform mid := by
  rw [Commands.settings, Action.perform_bind_of_ok hsettings]
  rfl

end Settled

/-! ## Every command -/

/-- The lines that show a tempo and a tuning. -/
def settingsLines (path : Files.Path) (tempo tuning : Value) : List String :=
  ["Config file: " ++ path.toString, "Tempo: " ++ tempo.shown ++ " BPM",
    "A4 frequency: " ++ tuning.shown ++ " Hz"]

/-- A value that is no text with surrogates, so that the output takes it as it is. -/
def IsPlain (value : Value) : Prop :=
  ∀ text, value = .text text → ∃ chars, text = Points.ofChars chars

theorem isPlain_iff {value : Value} :
    IsPlain value ↔ ∀ point ∈ value.display, point.toChar?.isSome = true := by
  rw [← Points.exists_eq_ofChars_iff]
  cases value with
  | text text =>
    rw [Value.display]
    exact ⟨fun h => h text rfl, fun h other hother => Value.text.inj hother ▸ h⟩
  | _ => exact ⟨fun _ => ⟨_, rfl⟩, fun _ _ => by rintro ⟨⟩⟩

/-- What printing a value between two texts does. -/
theorem print_display (first last : String) (value : Value) (s : Session) :
    (IsPlain value → (Action.print (.ofString first ++ value.display ++ .ofString last)).perform s =
      (.ok ⟨⟩, { s with output := s.output ++ (first ++ value.shown ++ last) ++ "\n" })) ∧
    (¬ IsPlain value → ∃ place length point,
      (Action.print (.ofString first ++ value.display ++ .ofString last)).perform s =
        (.error (.unencodable place length point), s)) := by
  have hchars : ∀ text : String, ∀ point ∈ Points.ofString text, point.toChar?.isSome = true :=
    fun text => Points.exists_eq_ofChars_iff.mp ⟨_, rfl⟩
  have hline : IsPlain value ↔ ∀ point ∈ Points.ofString first ++ value.display ++
      Points.ofString last, point.toChar?.isSome = true := by
    rw [isPlain_iff, List.forall_mem_append, List.forall_mem_append]
    exact ⟨fun h => ⟨⟨hchars first, h⟩, hchars last⟩, fun h => h.1.2⟩
  refine ⟨fun h => ?_, fun h => Action.print_of_not_forall (mt hline.mpr h) s⟩
  rw [Action.print_of_forall (hline.mp h)]
  simp [Points.ofString, Value.shown, String.ofList_append, String.append_assoc]

/-- The settings are shown: the tempo and the tuning as they are. Where one of them is a text with
surrogates the run ends in a fault, after the lines before it. -/
structure Shows (before : Session) (path : Files.Path) (tempo tuning : Value)
    (result : Except Fault Nat × Session) : Prop where
  printed : IsPlain tempo → IsPlain tuning → result.1 = .ok success ∧
    result.2.output = before.output ++ unlines (settingsLines path tempo tuning)
  stopsAtTempo : ¬ IsPlain tempo →
    (∃ place length point, result.1 = .error (.unencodable place length point)) ∧
      result.2.output = before.output ++ unlines ((settingsLines path tempo tuning).take 1)
  stopsAtTuning : IsPlain tempo → ¬ IsPlain tuning →
    (∃ place length point, result.1 = .error (.unencodable place length point)) ∧
      result.2.output = before.output ++ unlines ((settingsLines path tempo tuning).take 2)

theorem shows_settingsAt (tempo tuning : Value) (s : Session) :
    Shows s (Places.settingsFile s.environment) tempo tuning
      ((settingsAt tempo tuning).perform s) := by
  have hsay : ∀ (line : String) (s : Session), (Action.say line).perform s =
      (.ok ⟨⟩, { s with output := s.output ++ line ++ "\n" }) := fun _ _ => rfl
  rw [settingsAt, Action.perform_bind_get,
    Action.perform_bind_of_ok (hsay _ _)]
  have hfirst := print_display "Tempo: " " BPM" tempo
  have hsecond := print_display "A4 frequency: " " Hz" tuning
  refine ⟨fun htempo htuning => ?_, fun htempo => ?_, fun htempo htuning => ?_⟩
  · rw [Action.perform_bind_of_ok ((hfirst _).1 htempo),
      Action.perform_bind_of_ok ((hsecond _).1 htuning), Action.perform_pure]
    simp [settingsLines, unlines, String.append_assoc]
  · obtain ⟨place, length, point, hprint⟩ := (hfirst _).2 htempo
    rw [Action.perform_bind_of_error hprint]
    exact ⟨⟨place, length, point, rfl⟩, by simp [settingsLines, unlines, String.append_assoc]⟩
  · rw [Action.perform_bind_of_ok ((hfirst _).1 htempo)]
    obtain ⟨place, length, point, hprint⟩ := (hsecond _).2 htuning
    rw [Action.perform_bind_of_error hprint]
    exact ⟨⟨place, length, point, rfl⟩, by simp [settingsLines, unlines, String.append_assoc]⟩

theorem Shows.of_output_eq {before other : Session} {path : Files.Path} {tempo tuning : Value}
    {result : Except Fault Nat × Session} (h : Shows other path tempo tuning result)
    (houtput : other.output = before.output) : Shows before path tempo tuning result :=
  ⟨houtput ▸ h.printed, houtput ▸ h.stopsAtTempo, houtput ▸ h.stopsAtTuning⟩

/-- The commands run with the settings in force: the tempo of compiling, rendering and a rest, the
tuning of compiling, rendering and a frequency, and both where the settings are shown. -/
structure RunsOver (s : Session) (verbose : Bool) (inner : Members) : Prop where
  compile : ∀ {arguments options},
    Calls Grammars.compileTopic Grammars.compile {} arguments verbose options → ∀ part input,
      ∃ mid, Settled { s with verbose } mid ∧ (run part arguments input).perform s =
        (compileAt (Settings.tempoOver options.tempo s.environment inner)
          (Settings.tuningOver options.tuning s.environment inner) options input).perform mid
  render : ∀ {arguments options},
    Calls Grammars.renderTopic Grammars.render {} arguments verbose options → ∀ part input,
      ∃ given loaded mid, Settings.rendering.perform { s with verbose } = (.ok given, loaded) ∧
        Settled { s with verbose } mid ∧ (run part arguments input).perform s =
          (renderAt (Settings.tempoOver options.tempo s.environment inner)
            (Settings.tuningOver options.tuning s.environment inner) given part options
            input).perform mid
  frequency : ∀ {arguments options},
    Calls Grammars.frequencyTopic Grammars.frequency {} arguments verbose options → ∀ part input,
      ∃ mid, Settled { s with verbose } mid ∧ (run part arguments input).perform s =
        (frequencyAt (Settings.tuningOver options.tuning s.environment inner)
          options.pitch).perform mid
  rest : ∀ {arguments options},
    Calls Grammars.restTopic Grammars.rest {} arguments verbose options → ∀ part input,
      ∃ mid, Settled { s with verbose } mid ∧ (run part arguments input).perform s =
        (restAt (Settings.tempoOver options.tempo s.environment inner)
          options.fraction).perform mid
  settings : ∀ {arguments},
    Calls Grammars.settingsTopic Grammars.settings () arguments verbose () → ∀ part input,
      Shows s (Places.settingsFile s.environment) (Settings.tempoOver none s.environment inner)
        (Settings.tuningOver none s.environment inner) ((run part arguments input).perform s)

theorem runsOver_of_gives {verbose : Bool} {made : Session}
    (hmade : (Action.ensureDirectory (Places.settingsDirectory s.environment)).perform
      { s with verbose } = (.ok (), made))
    (hroom : Settings.FileHasRoom s.environment) (hgives : Settings.GivesComposer made inner) :
    RunsOver s verbose inner := by
  obtain ⟨members, loaded, hload, hready, hfound, henvironment, hsection⟩ :=
    Settings.exists_load_of_gives (s := { s with verbose }) hmade hroom hgives
  obtain ⟨mid, hsettings, hlogs⟩ :=
    Settings.exists_composer_of_load hload henvironment hsection
  have hsettled : Settled { s with verbose } mid := ⟨loaded, .inr ⟨members, hload⟩, hlogs⟩
  refine ⟨?_, ?_, ?_, ?_, ?_⟩
  · intro arguments options h part input
    refine ⟨mid, hsettled, ?_⟩
    rw [run_compile h]
    exact compile_perform_at hsettings options input
  · intro arguments options h part input
    obtain ⟨again, hagain, hlogged⟩ := hready.load_of_found hfound
    obtain ⟨last, hsettings, hmore⟩ := Settings.exists_composer_of_load hagain
      (hlogged.environment_eq.trans henvironment) hsection
    have hrendering := Settings.rendering_perform hload
    obtain ⟨later, hlater, hrun⟩ := renderFrom_perform
      (tones_perform_at hsettings options.toScoreOptions (scoreOf options.toScoreOptions input))
      (Settings.sectionOf members Settings.renderSection) part options
    refine ⟨_, loaded, later, hrendering, ⟨loaded, .inr ⟨members, hload⟩, ?_⟩, ?_⟩
    · rcases hlater with rfl | rfl
      · exact .refl _
      · exact hlogged.trans hmore
    · rw [run_render h, render_eq_renderFrom, Action.perform_bind_of_ok hrendering]
      exact hrun
  · intro arguments options h part input
    obtain ⟨later, hlater, hsetting⟩ := settingFor_perform ⟨members, loaded, hload, hlogs⟩ hsettings
      options.tuning (·.tuning)
    refine ⟨later, hlater, ?_⟩
    rw [run_frequency h, frequency_eq_settingFor, Action.perform_bind_of_ok hsetting]
    rfl
  · intro arguments options h part input
    obtain ⟨later, hlater, hsetting⟩ := settingFor_perform ⟨members, loaded, hload, hlogs⟩ hsettings
      options.tempo (·.tempo)
    refine ⟨later, hlater, ?_⟩
    rw [run_rest h, rest_eq_settingFor, Action.perform_bind_of_ok hsetting]
    rfl
  · intro arguments h part input
    have hshows := shows_settingsAt (Settings.settingsOver s.environment inner).tempo
      (Settings.settingsOver s.environment inner).tuning mid
    rw [hlogs.environment_eq, henvironment] at hshows
    rw [run_settings h, settings_perform_at hsettings]
    exact hshows.of_output_eq hsettled.reports.output_eq

/-- The commands that need the settings end in a fault: all but a frequency under a tuning that is
given and a rest at a tempo that is given. -/
structure StopsAt (s : Session) (verbose : Bool) (fault : Fault) : Prop where
  compile : ∀ {arguments options},
    Calls Grammars.compileTopic Grammars.compile {} arguments verbose options → ∀ part input,
      ((run part arguments input).perform s).1 = .error fault
  render : ∀ {arguments options},
    Calls Grammars.renderTopic Grammars.render {} arguments verbose options → ∀ part input,
      ((run part arguments input).perform s).1 = .error fault
  settings : ∀ {arguments},
    Calls Grammars.settingsTopic Grammars.settings () arguments verbose () → ∀ part input,
      ((run part arguments input).perform s).1 = .error fault
  frequency : ∀ {arguments options},
    Calls Grammars.frequencyTopic Grammars.frequency {} arguments verbose options → ∀ part input,
      match options.tuning with
      | some n => (run part arguments input).perform s =
          (frequencyAt (.int n) options.pitch).perform { s with verbose }
      | none => ((run part arguments input).perform s).1 = .error fault
  rest : ∀ {arguments options},
    Calls Grammars.restTopic Grammars.rest {} arguments verbose options → ∀ part input,
      match options.tempo with
      | some n => (run part arguments input).perform s =
          (restAt (.int n) options.fraction).perform { s with verbose }
      | none => ((run part arguments input).perform s).1 = .error fault

theorem stopsAt_of_load {verbose : Bool} {fault : Files.Fault} {stopped : Session}
    (h : Settings.load.perform { s with verbose } = (.error (.file fault), stopped)) :
    StopsAt s verbose (.file fault) := by
  have hcomposer : Settings.composer.perform { s with verbose } =
      (.error (.file fault), stopped) := by
    rw [Settings.composer, Action.perform_bind_of_error h]
  refine ⟨?_, ?_, ?_, ?_, ?_⟩
  · intro arguments options hcalls part input
    rw [run_compile hcalls, compile, reporting_of_silent (tones_perform_of_error _ _ h) rfl]
  · intro arguments options hcalls part input
    have hrendering : Settings.rendering.perform { s with verbose } =
        (.error (.file fault), stopped) := by
      rw [Settings.rendering, Action.perform_bind_of_error h]
    rw [run_render hcalls, render_eq_renderFrom, Action.perform_bind_of_error hrendering]
  · intro arguments hcalls part input
    rw [run_settings hcalls, Commands.settings, Action.perform_bind_of_error hcomposer]
  · intro arguments options hcalls part input
    rw [run_frequency hcalls, frequency_eq_settingFor]
    cases options.tuning with
    | some n => rfl
    | none =>
      have hsetting : (settingFor none (·.tuning)).perform { s with verbose } =
          (.error (.file fault), stopped) := Action.perform_bind_of_error hcomposer _
      rw [Action.perform_bind_of_error hsetting]
  · intro arguments options hcalls part input
    rw [run_rest hcalls, rest_eq_settingFor]
    cases options.tempo with
    | some n => rfl
    | none =>
      have hsetting : (settingFor none (·.tempo)).perform { s with verbose } =
          (.error (.file fault), stopped) := Action.perform_bind_of_error hcomposer _
      rw [Action.perform_bind_of_error hsetting]

/-- Where there is no room for the path of the file, the settings cannot be loaded. -/
theorem stopsAt_of_noRoom {verbose : Bool} {made : Session}
    (hmade : (Action.ensureDirectory (Places.settingsDirectory s.environment)).perform
      { s with verbose } = (.ok (), made))
    (hroom : ¬ Settings.FileHasRoom s.environment) : ∃ fault, StopsAt s verbose (.file fault) := by
  obtain ⟨hready, henvironment⟩ :=
    Settings.isReady_of_ensureDirectory (s := { s with verbose }) hmade
  obtain ⟨fault, hload⟩ := hready.load_of_noRoom (henvironment ▸ hroom)
  exact ⟨fault, stopsAt_of_load ((Settings.load_of_made hmade).trans hload)⟩

end Commands

end Ringtone
