import Ringtone.Composer
import Ringtone.Json.Printer
import Ringtone.Json.Reader
import Ringtone.Places
import Ringtone.Sound.Rendering

/-!
# Settings

The settings are a JSON object with a section for the composer and one for rendering. What the file
holds is laid over the defaults, section by section. A file that cannot be read, or holds no
object, is ignored with a warning; one that is missing is written with the defaults.
-/

namespace Ringtone

open Number Text

namespace Settings

/-- The part of the program that warnings name. -/
def part : String := "nokiacomposer.config"

/-- A name of a section or a setting. -/
def named (name : String) (value : Value) : Points × Value := (Points.ofString name, value)

/-- The section of the composer. -/
def composerSection : String := "composer"

/-- The section of rendering. -/
def renderSection : String := "render"

/-- The tempo of the composer. -/
def tempoName : String := "bpm"

/-- The tuning of the composer. -/
def tuningName : String := "a4_frequency"

/-- The sample rate. -/
def rateName : String := "sample_rate"

/-- The style. -/
def styleName : String := "style"

/-- The gap in milliseconds. -/
def gapName : String := "gap_ms"

/-- The tempo where nothing else is said. -/
def defaultTempo : Value := .int 120

/-- The tuning where nothing else is said. -/
def defaultTuning : Value := .int Ringtone.defaultTuning

/-- The sample rate where nothing else is said. -/
def defaultRate : Value := .int Sound.defaultRate

/-- The style where nothing else is said. -/
def defaultStyle : Value := .ofString Sound.Style.sine.name

/-- The gap where nothing else is said. -/
def defaultGap : Value := .int 0

/-- The settings where nothing else is said. -/
def defaults : Members :=
  [named composerSection
      (.object [named tempoName defaultTempo, named tuningName defaultTuning]),
    named renderSection
      (.object
        [named rateName defaultRate, named styleName defaultStyle, named gapName defaultGap])]

/-- Some settings with one more laid over them: a section over a section setting by setting,
anything else as a whole. -/
def layOver (settings : Members) (name : Points) (value : Value) : Members :=
  match settings.get? name, value with
  | some (.object base), .object above =>
    settings.set name (.object (Members.overlay base above))
  | _, _ => settings.set name value

/-- The settings of a file laid over the defaults. -/
def merge (given : Members) : Members :=
  given.foldl (fun settings (name, value) => layOver settings name value) defaults

/-- A text with every kind of line end written as a line feed. -/
def unifyLineEnds : List Char → List Char
  | [] => []
  | '\r' :: '\n' :: rest => '\n' :: unifyLineEnds rest
  | '\r' :: rest => '\n' :: unifyLineEnds rest
  | c :: rest => c :: unifyLineEnds rest

/-- Writes settings to their file. -/
def save (settings : Value) : Action Unit := do
  let environment := (← get).environment
  Action.ensureDirectory (Places.settingsDirectory environment)
  Action.writeFile (Places.settingsFile environment) (Utf8.encode (Json.indented settings))

/-- The settings that a file's bytes give, with a warning where they are not what they should
be. -/
def ofBytes (path : String) (bytes : List UInt8) : Action Members := do
  match Utf8.decode bytes with
  | .error fault => throw (.encoding fault)
  | .ok decoded =>
    let text := unifyLineEnds decoded
    match Json.readWithin (← get).nesting text with
    | .ok (.object given) => return merge given
    | .ok _ =>
      Action.warn part ("Ignoring config " ++ path ++ ": expected a JSON object")
      return defaults
    | .error (.malformed reason position) =>
      Action.warn part
        ("Ignoring unreadable config " ++ path ++ ": " ++ Json.faultMessage text reason position)
      return defaults
    | .error (.longNumeral digits) => throw (.unreadableNumeral digits)
    | .error .nesting => throw .nesting

/-- The settings of the file, laid over the defaults. -/
def load : Action Members := do
  let environment := (← get).environment
  Action.ensureDirectory (Places.settingsDirectory environment)
  let path := Places.settingsFile environment
  if ← Action.isPresent path then
    let session ← get
    match session.files.read session.current path with
    | .ok bytes => ofBytes path.toString bytes
    | .error cause =>
      let fault : Files.Fault := { cause, path := path.text }
      Action.warn part
        ("Ignoring unreadable config " ++ path.toString ++ ": " ++ fault.message)
      return defaults
  else
    save (.object defaults)
    return defaults

/-! ## The settings of the composer and of rendering -/

/-- The whole number that a variable of the environment denotes. An empty one counts as missing,
and one that denotes no whole number is ignored with a warning. -/
def wholeVariable? (name : String) : Action (Option Int) := do
  match ← Action.getVariable? name with
  | none | some [] => return none
  | some text =>
    match readInt? text with
    | some n => return some n
    | none =>
      Action.warn part
        ("Ignoring " ++ name ++ "=" ++ String.ofList (quoted text) ++ ": not a whole number")
      return none

/-- A setting of a section, or what stands for it when it is missing. -/
def settingOf (section? : Value) (name : String) (fallback : Value) : Except Fault Value :=
  match section? with
  | .object members => .ok ((Members.get? members (Points.ofString name)).getD fallback)
  | _ => .error .noAttribute

/-- The settings of the composer. -/
structure ComposerSettings where
  /-- The tempo. -/
  tempo : Value
  /-- The tuning. -/
  tuning : Value

/-- The settings of the composer as an object. -/
def ComposerSettings.toValue (settings : ComposerSettings) : Value :=
  .object [named tempoName settings.tempo, named tuningName settings.tuning]

/-- The variable of the tempo. -/
def tempoVariable : String := "NOKIACOMPOSER_BPM"

/-- The variable of the tuning. -/
def tuningVariable : String := "NOKIACOMPOSER_A4_FREQUENCY"

/-- A section of some settings. -/
def sectionOf (settings : Members) (name : String) : Value :=
  (settings.get? (Points.ofString name)).getD (.object [])

/-- A setting of the composer: the variable's number before that of the section. -/
def resolve (number : Option Int) (section? : Value) (name : String) (fallback : Value) :
    Except Fault Value :=
  match number with
  | some n => .ok (.int n)
  | none => settingOf section? name fallback

/-- The settings of the composer, from the environment and the file. -/
def composer : Action ComposerSettings := do
  let settings ← load
  let given := sectionOf settings composerSection
  let tempo ← wholeVariable? tempoVariable
  let tuning ← wholeVariable? tuningVariable
  let tempo ← resolve tempo given tempoName defaultTempo
  let tuning ← resolve tuning given tuningName defaultTuning
  return { tempo, tuning }

/-- The section of rendering, from the file. -/
def rendering : Action Value := return sectionOf (← load) renderSection

end Settings

end Ringtone
