import Ringtone.CommandLine.Help
import Ringtone.CommandLine.Reader
import Ringtone.Settings
import Ringtone.Sound.Wav

/-!
# Commands

The program compiles scores, renders them to files, tells frequencies and lengths, and shows its
settings. What is given on the command line counts before the environment, and that before the
settings. A fault that has words ends a command with a message and the exit code one; any other
fault leaves the program.
-/

namespace Ringtone

open CommandLine Number

/-! ## What the commands are given -/

/-- Where a score comes from, and how it is compiled. -/
structure ScoreOptions where
  /-- The score itself. -/
  score : Option Argument := none
  /-- Whether the built-in tune is meant. -/
  tune : Bool := false
  /-- The tempo. -/
  tempo : Option Int := none
  /-- The tuning. -/
  tuning : Option Int := none

/-- What `compile` is given. -/
structure CompileOptions extends ScoreOptions where
  /-- Whether the tones are written as JSON. -/
  json : Bool := false

/-- What `render` is given. -/
structure RenderOptions extends ScoreOptions where
  /-- The path of the file. -/
  path : Option Argument := none
  /-- The style. -/
  style : Option Argument := none
  /-- The sample rate. -/
  rate : Option Int := none
  /-- The gap in milliseconds. -/
  gap : Option Int := none

/-- What `freq` is given. -/
structure FrequencyOptions where
  /-- The pitch. -/
  pitch : Argument := []
  /-- The tuning. -/
  tuning : Option Int := none

/-- What `rest` is given. -/
structure RestOptions where
  /-- The fraction. -/
  fraction : Int := 0
  /-- The tempo. -/
  tempo : Option Int := none

/-- What the program is given before a command, and the command with its own arguments. -/
structure ProgramOptions where
  /-- Whether messages for debugging are written. -/
  verbose : Bool := false
  /-- The command and its arguments. -/
  command : Option (Topic × List Argument) := none

/-! ## Grammars -/

namespace Grammars

/-- The switch of the built-in tune. -/
def tuneSwitch {σ : Type} (apply : σ → σ) : Switch σ :=
  { names := ["--nokia"], effect := .flag apply, purpose := "Use the built-in Nokia tune" }

/-- The switch of the tempo. -/
def tempoSwitch {σ : Type} (apply : Int → σ → σ) : Switch σ :=
  { names := ["--bpm"], effect := .whole "BPM" apply
    purpose := "Tempo in quarter beats per minute" }

/-- The switch of the tuning. -/
def tuningSwitch {σ : Type} (apply : Int → σ → σ) : Switch σ :=
  { names := ["--a4"], effect := .whole "A4" apply, purpose := "Frequency of A4 in Hz" }

/-- The operand of the score. -/
def scoreOperand {σ : Type} (apply : Argument → σ → σ) : Operand σ :=
  .optional "score" "Score to compile (reads from stdin if not provided)" apply

/-- The command `compile`. -/
def compileTopic : Topic :=
  { name := "compile", purpose := "Print frequency/duration pairs for a score" }

/-- The command `render`. -/
def renderTopic : Topic := { name := "render", purpose := "Render a score to a WAV file" }

/-- The command `freq`. -/
def frequencyTopic : Topic := { name := "freq", purpose := "Print the frequency of a pitch" }

/-- The command `rest`. -/
def restTopic : Topic :=
  { name := "rest", purpose := "Print the duration in milliseconds of a note fraction" }

/-- The command `config`. -/
def settingsTopic : Topic := { name := "config", purpose := "Show effective settings" }

/-- The words that call a command. -/
def calling (topic : Topic) : String := programName ++ " " ++ topic.name

/-- The command line of the program. -/
def program : Grammar ProgramOptions :=
  { program := programName
    description := some "Compile Nokia composer scores to frequencies and durations"
    switches :=
      [helpSwitch,
        { names := ["-v", "--verbose"]
          effect := .flag fun options => { options with verbose := true }
          purpose := "Show debug logging" }]
    operand := some <| .command "command" "Commands"
      [compileTopic, renderTopic, frequencyTopic, restTopic, settingsTopic]
      fun topic arguments options => { options with command := some (topic, arguments) } }

/-- The command line of `compile`. -/
def compile : Grammar CompileOptions :=
  { program := calling compileTopic
    description := none
    switches :=
      [helpSwitch,
        tuneSwitch fun options => { options with tune := true },
        tempoSwitch fun tempo options => { options with tempo := some tempo },
        tuningSwitch fun tuning options => { options with tuning := some tuning },
        { names := ["--json"]
          effect := .flag fun options => { options with json := true }
          purpose := "Print a JSON list of [frequency, duration]" }]
    operand := some (scoreOperand fun score options => { options with score := some score }) }

/-- The command line of `render`. -/
def render : Grammar RenderOptions :=
  { program := calling renderTopic
    description := none
    switches :=
      [helpSwitch,
        tuneSwitch fun options => { options with tune := true },
        tempoSwitch fun tempo options => { options with tempo := some tempo },
        tuningSwitch fun tuning options => { options with tuning := some tuning },
        { names := ["-o", "--output"]
          effect := .text "OUTPUT" fun path options => { options with path := some path }
          purpose := "Output WAV path" },
        { names := ["--style"]
          effect := .choice (Sound.Style.all.map (·.name))
            fun style options => { options with style := some style }
          purpose := "Synthesis style" },
        { names := ["--sample-rate"]
          effect := .whole "SAMPLE_RATE" fun rate options => { options with rate := some rate }
          purpose := "Sample rate in Hz" },
        { names := ["--gap-ms"]
          effect := .whole "GAP_MS" fun gap options => { options with gap := some gap }
          purpose := "Silence at the end of each note in milliseconds" }]
    operand := some (scoreOperand fun score options => { options with score := some score }) }

/-- The command line of `freq`. -/
def frequency : Grammar FrequencyOptions :=
  { program := calling frequencyTopic
    description := none
    switches :=
      [helpSwitch, tuningSwitch fun tuning options => { options with tuning := some tuning }]
    operand := some <| .text "pitch" "Pitch such as c#4"
      fun pitch options => { options with pitch } }

/-- The command line of `rest`. -/
def rest : Grammar RestOptions :=
  { program := calling restTopic
    description := none
    switches :=
      [helpSwitch, tempoSwitch fun tempo options => { options with tempo := some tempo }]
    operand := some <| .whole "fraction" "Note fraction (4 = quarter)"
      fun fraction options => { options with fraction } }

/-- The command line of `config`. -/
def settings : Grammar Unit :=
  { program := calling settingsTopic
    description := none
    switches := [helpSwitch]
    operand := none }

end Grammars

/-! ## The commands -/

namespace Commands

/-- What messages for debugging call the commands. -/
def part : String := "nokiacomposer.cli"

/-- The exit code of a command that did what it was asked for. -/
def success : Nat := 0

/-- The exit code of a command that met a fault. -/
def failure : Nat := 1

/-- The exit code of a command line that is misused. -/
def misuse : Nat := 2

/-- Ends a command with a message. -/
def fail (message : String) : Action Nat := do
  Action.complain ("Error: " ++ message)
  return failure

/-- Does one thing and then another; a fault of the first that `reported` has words for ends the
command with these instead. -/
def reporting {α : Type} (reported : Fault → Option String) (first : Action α)
    (next : α → Action Nat) : Action Nat := do
  match ← tryCatch (.ok <$> first) (fun fault => return .error fault) with
  | (.ok result : Except Fault α) => next result
  | .error fault =>
    match reported fault with
    | some message => fail message
    | none => throw fault

/-- The words for a fault of a note. -/
def noteMessage? : Fault → Option String
  | .note fault => some fault.message
  | .badNote token cause => some (badNoteMessage token cause)
  | _ => none

/-- The score that a command is given: the built-in tune, or the operand, or all of the input. -/
def scoreOf (options : ScoreOptions) (input : List Char) : List Char :=
  if options.tune then Score.builtin
  else match options.score with
  | some (c :: rest) => c :: rest
  | _ => input

/-- A number of the command line, or what stands for it. -/
def orElse (number : Option Int) (otherwise : Value) : Value :=
  match number with
  | some n => .int n
  | none => otherwise

/-- The composer for a score. -/
def composerFor (options : ScoreOptions) : Action Composer := do
  let settings ← Settings.composer
  ofExcept (Composer.make (orElse options.tempo settings.tempo)
    (orElse options.tuning settings.tuning))

/-- Notes that the pitches are looked up, for the first time or again. -/
def lookUpPitches : Action Unit := do
  if (← get).pitchesKnown then return ()
  Action.debug "pycomposer.pitch"
    ("Built pitch table with " ++ numeral Pitch.all.length ++ " entries")
  modify fun session => { session with pitchesKnown := true }

/-- The tones of a score. -/
def compileScore (composer : Composer) (score : List Char) : Action (List Tone) := do
  if Score.namesPitch score then lookUpPitches
  let tones ← ofExcept (composer.compile score)
  Action.debug "pycomposer.composer"
    ("Compiled " ++ numeral tones.length ++ " notes at " ++ numeral composer.tempo.beats
      ++ " BPM, A4=" ++ numeral composer.tuning ++ " Hz")
  return tones

/-- A tone on a line of its own. -/
def toneLine (tone : Tone) : String := numeral tone.frequency ++ " " ++ numeral tone.duration

/-- Prints the tones of a score. -/
def compile (options : CompileOptions) (input : List Char) : Action Nat :=
  let score := scoreOf options.toScoreOptions input
  reporting Fault.message?
    (do compileScore (← composerFor options.toScoreOptions) score)
    fun tones => do
      if options.json then Action.say (Json.line (.list (tones.map Sound.toneValue)))
      else tones.forM fun tone => Action.say (toneLine tone)
      return success

/-- A rate of the command line that is not zero, or else that of the settings. -/
def rateFor (rate : Option Int) (section? : Value) : Except Fault Value :=
  match rate with
  | some n =>
    if n = 0 then Settings.settingOf section? Settings.rateName Settings.defaultRate
    else .ok (.int n)
  | none => Settings.settingOf section? Settings.rateName Settings.defaultRate

/-- A style of the command line, or else that of the settings. -/
def styleFor (style : Option Argument) (section? : Value) : Except Fault Value :=
  match style with
  | some (c :: rest) => .ok (.ofChars (c :: rest))
  | _ => Settings.settingOf section? Settings.styleName Settings.defaultStyle

/-- A gap of the command line, or else that of the settings. -/
def gapFor (gap : Option Int) (section? : Value) : Except Fault Value :=
  match gap with
  | some n => .ok (.int n)
  | none => Settings.settingOf section? Settings.gapName Settings.defaultGap

/-- The path of a rendered file: the one given, or a fresh one. -/
def pathFor (path : Option Argument) : Action Files.Path :=
  match path with
  | some (c :: rest) => return .ofChars (c :: rest)
  | _ => Places.freshRender

/-- Writes samples to a file. The file is opened, and what it held is gone, before the header is
made. -/
def writeSamples (samples : List Float) (path : Files.Path) (rate : Value) : Action Unit := do
  Action.writeFile path []
  let content ← ofExcept (Sound.wav rate (Sound.quantiseAll samples))
  Action.writeFile path content
  Action.debug "pycomposer.synthesis"
    ("Wrote " ++ numeral samples.length ++ " samples to " ++ path.toString)

/-- The words for a fault of writing to a path. -/
def writeMessage? (path : Files.Path) : Fault → Option String
  | .file fault => some ("Cannot write " ++ path.toString ++ ": " ++ fault.message)
  | _ => none

/-- A rate as a whole number. -/
def rateText : Value → String
  | .bool b => if b then "1" else "0"
  | .int n => numeral n
  | value => value.shown

/-- Renders a score to a file. `part` is what messages for debugging call the command. -/
def render (part : String) (options : RenderOptions) (input : List Char) : Action Nat := do
  let score := scoreOf options.toScoreOptions input
  let given ← Settings.rendering
  let style ← ofExcept (styleFor options.style given)
  let rate ← ofExcept (rateFor options.rate given)
  let gap ← ofExcept (gapFor options.gap given)
  reporting Fault.message?
    (do
      let tones ← compileScore (← composerFor options.toScoreOptions) score
      let samples ← ofExcept (Sound.renderTones tones rate style gap)
      return (tones, samples))
    fun (tones, samples) => do
      if tones.isEmpty then fail "No notes to render"
      else
        let path ← pathFor options.path
        reporting (writeMessage? path) (writeSamples samples path rate) fun () => do
          Action.debug part
            ("Rendered " ++ numeral tones.length ++ " notes with " ++ style.shown ++ " at "
              ++ rateText rate ++ " Hz")
          Action.say path.toString
          return success

/-- Prints the frequency of a pitch. -/
def frequency (options : FrequencyOptions) : Action Nat := do
  let tuning ← match options.tuning with
    | some n => pure (.int n)
    | none => do pure (← Settings.composer).tuning
  reporting noteMessage?
    (do
      lookUpPitches
      ofExcept (frequencyOf (.ofChars options.pitch) tuning))
    fun frequency => do
      Action.say (numeral frequency)
      return success

/-- Prints the length of a fraction. -/
def rest (options : RestOptions) : Action Nat := do
  let tempo ← match options.tempo with
    | some n => pure (.int n)
    | none => do pure (← Settings.composer).tempo
  reporting noteMessage? (ofExcept (durationOf (.int options.fraction) tempo)) fun duration => do
    Action.say (numeral duration)
    return success

/-- Shows the settings. -/
def settings : Action Nat := do
  let settings ← Settings.composer
  let path := Places.settingsFile (← get).environment
  Action.say ("Config file: " ++ path.toString)
  Action.print (.ofString "Tempo: " ++ settings.tempo.display ++ .ofString " BPM")
  Action.print (.ofString "A4 frequency: " ++ settings.tuning.display ++ .ofString " Hz")
  return success

/-! ## The program -/

/-- The width for help texts: that of the terminal, less the margin. -/
def helpWidth : Action Int := do
  let columns := ((← Action.getVariable? "COLUMNS").bind readInt?).getD 0
  return (if 0 < columns then columns else 80) - margin

/-- Ends the reading of a command line that does not lead to a command. -/
def stop {σ : Type} (grammar : Grammar σ) : Stop → Action Nat
  | .help => do
    let text := grammar.help (← helpWidth)
    modify fun session => { session with output := session.output ++ text }
    return success
  | .misuse message => do
    let text := grammar.usage (← helpWidth)
    modify fun session => { session with errors := session.errors ++ text }
    Action.complain (grammar.program ++ ": error: " ++ message)
    return misuse

/-- Reads the arguments of a command and runs it, unless arguments are left over, there or before
the command. -/
def runCommand {σ : Type} (grammar : Grammar σ) (options : σ) (verbose : Bool)
    (leftOver arguments : List Argument) (run : σ → Action Nat) : Action Nat :=
  match grammar.read options arguments with
  | .error reason => stop grammar reason
  | .ok (options, more) =>
    match leftOver ++ more with
    | [] => do
      modify fun session => { session with verbose }
      run options
    | unknown => stop Grammars.program (.misuse (unrecognized unknown))

/-- Runs the command of a name. -/
def dispatch (part : String) (topic : Topic) (verbose : Bool)
    (leftOver arguments : List Argument) (input : List Char) : Action Nat :=
  if topic.name = Grammars.compileTopic.name then
    runCommand Grammars.compile {} verbose leftOver arguments fun options => compile options input
  else if topic.name = Grammars.renderTopic.name then
    runCommand Grammars.render {} verbose leftOver arguments fun options =>
      render part options input
  else if topic.name = Grammars.frequencyTopic.name then
    runCommand Grammars.frequency {} verbose leftOver arguments frequency
  else if topic.name = Grammars.restTopic.name then
    runCommand Grammars.rest {} verbose leftOver arguments rest
  else runCommand Grammars.settings () verbose leftOver arguments fun () => settings

/-- Runs the program on its arguments and its input; the result is the exit code. `part` is what
messages for debugging call the commands. -/
def run (part : String) (arguments : List Argument) (input : List Char) : Action Nat :=
  match Grammars.program.read {} arguments with
  | .error reason => stop Grammars.program reason
  | .ok (options, leftOver) =>
    match options.command with
    | some (topic, arguments) => dispatch part topic options.verbose leftOver arguments input
    | none =>
      match leftOver with
      | [] => stop Grammars.program .help
      | unknown => stop Grammars.program (.misuse (unrecognized unknown))

/-! ## What a run needs -/

/-- The options of a command, if it is the one that the arguments call. -/
def optionsOf {σ : Type} (topic : Topic) (grammar : Grammar σ) (options : σ)
    (arguments : List Argument) : Option σ :=
  match Grammars.program.read {} arguments with
  | .ok ({ command := some (called, arguments), .. }, _) =>
    if called.name = topic.name then ((grammar.read options arguments).map (·.1)).toOption
    else none
  | _ => none

/-- Whether the score comes from the input. -/
def ScoreOptions.wantsInput (options : ScoreOptions) : Bool :=
  !options.tune && (options.score.getD []).isEmpty

/-- Whether a run reads its input. -/
def readsInput (arguments : List Argument) : Bool :=
  (optionsOf Grammars.compileTopic Grammars.compile {} arguments).any
      (ScoreOptions.wantsInput ·.toScoreOptions)
    || (optionsOf Grammars.renderTopic Grammars.render {} arguments).any
      (ScoreOptions.wantsInput ·.toScoreOptions)

/-- The path that a run is told to write to. -/
def outputPath? (arguments : List Argument) : Option Files.Path :=
  match (optionsOf Grammars.renderTopic Grammars.render {} arguments).bind (·.path) with
  | some (c :: rest) => some (.ofChars (c :: rest))
  | _ => none

end Commands

end Ringtone
