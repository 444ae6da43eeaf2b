import Ringtone.Proofs.RenderRuns
import Ringtone.Proofs.SilentFaults

/-!
# Rendering, or else an error

With the default settings, a run that renders writes the whole file or ends with an error that
changes no file, but for a few faults that no message covers. Some of these are met before the file
is opened: a frequency beyond the range of binary64 numbers, a rate that overtaxes the rendering,
and a path that is none. Others are met only when the file has been opened and is empty: a rate or a
size that the header has no room for.
-/

namespace Ringtone.Commands

open CommandLine Number Sound

/-! ## What the default settings stand for -/

/-- The rate where the file has the default settings; zero counts as not given. -/
def rateByDefault (options : RenderOptions) : ℤ :=
  match options.rate with
  | some n => if n = 0 then defaultRate else n
  | none => defaultRate

/-- The style where the file has the default settings. -/
def styleByDefault (options : RenderOptions) : Value :=
  match options.style with
  | some (c :: rest) => .ofChars (c :: rest)
  | _ => Settings.defaultStyle

/-- The gap where the file has the default settings. -/
def gapByDefault (options : RenderOptions) : ℤ := options.gap.getD 0

theorem rateFor_defaults (options : RenderOptions) :
    rateFor options.rate (Settings.sectionOf Settings.defaults Settings.renderSection) =
      .ok (.int (rateByDefault options)) := by
  unfold rateFor rateByDefault
  cases options.rate with
  | none => rfl
  | some n =>
    dsimp only
    split_ifs
    · rfl
    · rfl

theorem styleFor_defaults (options : RenderOptions) :
    styleFor options.style (Settings.sectionOf Settings.defaults Settings.renderSection) =
      .ok (styleByDefault options) := by
  rw [styleByDefault]
  rcases options.style with _ | _ | ⟨c, rest⟩
  · rfl
  · rfl
  · rfl

/-- What the command line gives for a number can be written without going deep. -/
theorem fits_orElse_int (number : Option ℤ) (n : ℤ) :
    (orElse number (.int n)).Fits Value.levelLimit := by
  cases number <;> exact Value.fits_int _

theorem fits_styleByDefault (options : RenderOptions) :
    (styleByDefault options).Fits Value.levelLimit := by
  rw [styleByDefault]
  split
  · exact Value.fits_ofChars _
  · exact Value.fits_ofChars _

theorem gapFor_defaults (options : RenderOptions) :
    gapFor options.gap (Settings.sectionOf Settings.defaults Settings.renderSection) =
      .ok (.int (gapByDefault options)) := by
  rw [gapByDefault]
  cases options.gap <;> rfl

/-- The samples of a score where the file has the default settings. -/
def samplesByDefault (options : RenderOptions) (tones : List Tone) : Except Fault (List Float) :=
  renderTones tones (.int (rateByDefault options)) (styleByDefault options)
    (.int (gapByDefault options))

/-- The tones of a score and their samples, where the file has the default settings. -/
def renderedByDefault (options : RenderOptions) (score : List Char) :
    Except Fault (List Tone × List Float) := do
  let composer ← composerByDefault options.toScoreOptions
  let tones ← composer.compile score
  let samples ← samplesByDefault options tones
  return (tones, samples)

theorem renderedGiven_defaults {environment : Environment}
    (h : Settings.HasNoNumbers environment) (options : RenderOptions) (score : List Char) :
    renderedGiven options.toScoreOptions Settings.defaults environment score
        (.int (rateByDefault options)) (styleByDefault options) (.int (gapByDefault options)) =
      renderedByDefault options score := by
  rw [renderedGiven, tonesGiven, composerGiven_defaults h]
  exact bind_assoc _ _ _

/-! ## Where messages are missing -/

/-- The score is rendered to samples. -/
inductive Rendered (options : RenderOptions) (score : List Char) (samples : List Float) : Prop
  | intro {composer : Composer} {tones : List Tone}
    (hcomposer : composerByDefault options.toScoreOptions = .ok composer)
    (htones : composer.compile score = .ok tones) (hne : tones ≠ [])
    (hsamples : samplesByDefault options tones = .ok samples)

/-- Why a run that renders ends without a message, with the file as it was. -/
inductive StopsShort (options : RenderOptions) (score : List Char) (path : Files.Path) :
    Fault → Prop
  /-- The frequency of a note is beyond the range, and no earlier token is refused. -/
  | frequency {composer : Composer} {before : List (List Char)} {token : List Char}
      {after : List (List Char)} {note : Note}
      (hcomposer : composerByDefault options.toScoreOptions = .ok composer)
      (htokens : Score.tokens score = before ++ token :: after)
      (hbefore : ∀ t ∈ before, Score.Plays composer.tempo composer.tuning t)
      (hwritten : note.IsWritten token) (hover : note.pitch.Overflows composer.tuning) :
    StopsShort options score path (.number .tooLarge)
  /-- A tone asks for more than there is, at a rate that no header has room for: the rate or a
  number of samples is beyond the range, or no memory holds the samples. The tones before it are
  rendered. -/
  | rendering {composer : Composer} {style : Style} {gap : ℕ} {before after : List Tone} {t : Tone}
      {samples : List Float} {fault : Fault}
      (hcomposer : composerByDefault options.toScoreOptions = .ok composer)
      (htones : composer.compile score = .ok (before ++ t :: after))
      (hstyle : styleByDefault options = .ofString style.name)
      (hgap : gapByDefault options = gap) (hrate : ¬ HasRoom (rateByDefault options))
      (hbefore : samplesByDefault options before = .ok samples)
      (hovertaxes : Overtaxes (rateByDefault options) gap t fault) :
    StopsShort options score path fault
  /-- The path holds the character that ends paths. -/
  | path {samples : List Float} (h : Rendered options score samples)
      (hpath : ¬ Action.IsPath path) : StopsShort options score path .pathTerminator

/-- Why a run that renders ends without a message, with the file opened and empty. -/
inductive Truncates (files : Files.Node) (current : Files.Place) (options : RenderOptions)
    (score : List Char) (path : Files.Path) : Fault → Prop
  /-- The header has no room for the rate. -/
  | rate {samples : List Float} {opened : Files.Node} (h : Rendered options score samples)
      (hpath : Action.IsPath path) (hopen : files.write current path [] = .ok opened)
      (hrate : ¬ HasRoom (rateByDefault options)) :
    Truncates files current options score path .headerField
  /-- The header has no room for the size. -/
  | size {samples : List Float} {opened : Files.Node} (h : Rendered options score samples)
      (hpath : Action.IsPath path) (hopen : files.write current path [] = .ok opened)
      (hrate : HasRoom (rateByDefault options)) (hsize : wordLimit ≤ 36 + 2 * samples.length) :
    Truncates files current options score path .fileTooLarge

variable {options : RenderOptions} {score : List Char} {path : Files.Path} {fault : Fault}
  {files : Files.Node} {current : Files.Place} {s : Session}

theorem renderedByDefault_eq {composer : Composer} {tones : List Tone}
    (hcomposer : composerByDefault options.toScoreOptions = .ok composer)
    (htones : composer.compile score = .ok tones) :
    renderedByDefault options score = (samplesByDefault options tones).map (Prod.mk tones) := by
  rw [renderedByDefault, hcomposer]
  simp only [bind, Except.bind, htones]
  cases samplesByDefault options tones <;> rfl

theorem Rendered.exists_eq_ok {samples : List Float} (h : Rendered options score samples) :
    ∃ tones, tones ≠ [] ∧ renderedByDefault options score = .ok (tones, samples) := by
  obtain ⟨hcomposer, htones, hne, hsamples⟩ := h
  exact ⟨_, hne, by rw [renderedByDefault_eq hcomposer htones, hsamples]; rfl⟩

/-- A score is rendered to one list of samples. -/
theorem Rendered.unique {samples others : List Float} (h : Rendered options score samples)
    (hothers : Rendered options score others) : samples = others := by
  obtain ⟨tones, _, hok⟩ := h.exists_eq_ok
  obtain ⟨otherTones, _, hother⟩ := hothers.exists_eq_ok
  cases hok.symm.trans hother
  rfl

theorem rendered_of_eq_ok {tones : List Tone} {samples : List Float}
    (h : renderedByDefault options score = .ok (tones, samples)) (hne : tones ≠ []) :
    Rendered options score samples := by
  cases hcomposer : composerByDefault options.toScoreOptions with
  | error cause => rw [renderedByDefault, hcomposer] at h; cases h
  | ok composer =>
    cases htones : composer.compile score with
    | error cause =>
      rw [renderedByDefault, hcomposer] at h
      simp only [bind, Except.bind, htones] at h
      cases h
    | ok compiled =>
      rw [renderedByDefault_eq hcomposer htones] at h
      cases hsamples : samplesByDefault options compiled with
      | error cause => rw [hsamples] at h; cases h
      | ok rendered =>
        rw [hsamples] at h
        cases h
        exact .intro hcomposer htones hne hsamples

/-- What the rendering has no words for. -/
theorem stopsShort_of_renderedByDefault (h : renderedByDefault options score = .error fault)
    (hsilent : fault.message? = none) (path : Files.Path) :
    StopsShort options score path fault := by
  have hwords : ¬ ∃ message, fault.message? = some message := by simp [hsilent]
  cases hcomposer : composerByDefault options.toScoreOptions with
  | error cause =>
    rw [renderedByDefault, hcomposer] at h
    cases h
    exact absurd (Composer.exists_message_of_make (fits_orElse_int _ _) (fits_orElse_int _ _)
      hcomposer) hwords
  | ok composer =>
    cases htones : composer.compile score with
    | error cause =>
      rw [renderedByDefault, hcomposer] at h
      simp only [bind, Except.bind, htones] at h
      cases h
      obtain ⟨before, token, after, htokens, hbefore, hrefused⟩ :=
        Composer.compile_eq_error_iff.mp htones
      rcases hrefused.exists_message with hmessage | ⟨note, hwritten, hover, rfl⟩
      · exact absurd hmessage hwords
      · exact .frequency hcomposer htokens hbefore hwritten hover
    | ok tones =>
      rw [renderedByDefault_eq hcomposer htones] at h
      cases hsamples : samplesByDefault options tones with
      | ok samples =>
        rw [hsamples] at h
        cases h
      | error cause =>
        rw [hsamples] at h
        cases h
        have hcompiled := Composer.isCompiled_of_compile htones
        obtain ⟨style, gap, before, after, t, samples, hstyle, hgap, rfl, hbefore, hovertaxes⟩ :=
          (renderTones_silent_iff hcompiled (fits_styleByDefault options)).mp ⟨hsamples, hsilent⟩
        refine .rendering hcomposer htones hstyle hgap (fun hroom => ?_) hbefore hovertaxes
        exact not_overtaxes_of_hasRoom (hcompiled t (by simp)) hroom hovertaxes

@[simp]
theorem length_quantiseAll (samples : List Float) :
    (quantiseAll samples).length = samples.length := List.length_map _

/-- A file is truncated when its content cannot be made. -/
theorem Truncates.exists_wav_eq_error (h : Truncates files current options score path fault) :
    ∃ samples opened, Rendered options score samples ∧ Action.IsPath path ∧
      files.write current path [] = .ok opened ∧
      wav (.int (rateByDefault options)) (quantiseAll samples) = .error fault ∧
      writeMessage? path fault = none := by
  cases h with
  | rate hrendered hpath hopen hrate =>
    exact ⟨_, _, hrendered, hpath, hopen, wav_of_not_hasRoom hrate _, rfl⟩
  | size hrendered hpath hopen hrate hsize =>
    refine ⟨_, _, hrendered, hpath, hopen, ?_, rfl⟩
    rw [wav_of_hasRoom hrate, length_quantiseAll, if_neg (not_lt.mpr hsize)]

/-! ## A whole run -/

/-- The settings are there and are the defaults, and no variable counts before them. -/
structure HasDefaults (s : Session) : Prop where
  ready : Settings.IsReady s
  found : Settings.Found s (.ok Settings.defaults)
  numbers : Settings.HasNoNumbers s.environment

theorem HasDefaults.render_perform (h : HasDefaults s) (part : String) (options : RenderOptions)
    (input : List Char) :
    ∃ mid, s.Logs mid ∧ (render part options input).perform s =
      match renderedByDefault options (scoreOf options.toScoreOptions input) with
      | .ok (tones, samples) => (deliver part options.path (.int (rateByDefault options))
          (styleByDefault options) tones samples).perform mid
      | .error fault =>
        match fault.message? with
        | some message => (fail message).perform mid
        | none => (.error fault, mid) := by
  obtain ⟨loaded, hload, hlogs⟩ := h.ready.load_of_found h.found
  obtain ⟨mid, hmid, hrun⟩ := render_of_load part options input hload (h.ready.of_logs hlogs)
    (h.found.of_logs hlogs) (styleFor_defaults options) (rateFor_defaults options)
    (gapFor_defaults options)
  rw [hlogs.environment_eq, renderedGiven_defaults h.numbers] at hrun
  exact ⟨mid, hlogs.trans hmid, hrun⟩

/-- All went well, and the file at the path is that of the rendered samples. -/
def Completes (options : RenderOptions) (score : List Char) (path : Files.Path)
    (result : Except Fault Nat × Session) : Prop :=
  result.1 = .ok success ∧ ∃ samples, Rendered options score samples ∧
    result.2.files.read result.2.current path =
      .ok (wavFile (rateByDefault options).toNat (quantiseAll samples))

/-- A message says that all did not go well, and no file has changed. -/
def Declines (s : Session) (result : Except Fault Nat × Session) : Prop :=
  result.1 = .ok failure ∧ EndsWithError s result.2

section Run

variable {given : Argument} (part : String) (input : List Char) (h : HasDefaults s)
  (hpath : options.path = some given) (hgiven : given ≠ [])
include h hpath hgiven

/-- Once a score is rendered, its samples are written to the path. -/
theorem render_of_rendered {samples : List Float}
    (hrendered : Rendered options (scoreOf options.toScoreOptions input) samples) :
    ∃ mid tones, s.Logs mid ∧ (render part options input).perform s =
      (writeOut part (.int (rateByDefault options)) (styleByDefault options) (.ofChars given) tones
        samples).perform mid := by
  obtain ⟨mid, hlogs, hrun⟩ := h.render_perform part options input
  obtain ⟨tones, hne, hok⟩ := hrendered.exists_eq_ok
  rw [hok] at hrun
  dsimp only at hrun
  rw [hpath, deliver_of_ne_nil hgiven hne] at hrun
  exact ⟨mid, tones, hlogs, hrun⟩

theorem render_of_stopsShort
    (hstops : StopsShort options (scoreOf options.toScoreOptions input) (.ofChars given) fault) :
    ∃ after, (render part options input).perform s = (.error fault, after) ∧
      after.files = s.files := by
  have hsilent : ∀ {fault}, renderedByDefault options (scoreOf options.toScoreOptions input) =
      .error fault → fault.message? = none →
        ∃ after, (render part options input).perform s = (.error fault, after) ∧
          after.files = s.files := by
    intro fault herror hwords
    obtain ⟨mid, hlogs, hrun⟩ := h.render_perform part options input
    rw [herror] at hrun
    dsimp only at hrun
    rw [hwords] at hrun
    exact ⟨mid, hrun, hlogs.files_eq⟩
  cases hstops with
  | frequency hcomposer htokens hbefore hwritten hover =>
    refine hsilent ?_ rfl
    have hcompile := Composer.compile_eq_error_iff.mpr
      ⟨_, _, _, htokens, hbefore, .frequency hwritten hover⟩
    rw [renderedByDefault, hcomposer]
    simp only [bind, Except.bind, hcompile]
  | @rendering _ style gap before after t samples _ hcomposer htones hstyle hgap _ hbefore hover =>
    obtain ⟨hfault, hwords⟩ := (renderTones_silent_iff (Composer.isCompiled_of_compile htones)
      (fits_styleByDefault options)).mpr
        ⟨style, gap, before, after, t, samples, hstyle, hgap, rfl, hbefore, hover⟩
    refine hsilent ?_ hwords
    rw [renderedByDefault_eq hcomposer htones, samplesByDefault, hfault]
    rfl
  | path hrendered hinvalid =>
    obtain ⟨mid, tones, hlogs, hrun⟩ := render_of_rendered part input h hpath hgiven hrendered
    rw [writeOut_of_not_isPath hinvalid] at hrun
    exact ⟨mid, hrun, hlogs.files_eq⟩

theorem render_of_truncates (htruncates : Truncates s.files s.current options
      (scoreOf options.toScoreOptions input) (.ofChars given) fault) :
    ∃ after, (render part options input).perform s = (.error fault, after) ∧
      after.files.read after.current (.ofChars given) = .ok [] := by
  obtain ⟨samples, opened, hrendered, hvalid, hopen, hwav, hsilent⟩ :=
    htruncates.exists_wav_eq_error
  obtain ⟨mid, tones, hlogs, hrun⟩ := render_of_rendered part input h hpath hgiven hrendered
  rw [← hlogs.files_eq, ← hlogs.current_eq] at hopen
  rw [writeOut_of_wav_error hvalid hopen hwav hsilent] at hrun
  exact ⟨_, hrun, Files.Node.read_of_write hopen⟩

/-- What has been rendered is written as a whole to a path that can be opened. -/
theorem render_completes_of_opened {samples : List Float} {opened : Files.Node}
    (hrendered : Rendered options (scoreOf options.toScoreOptions input) samples)
    (hvalid : Action.IsPath (.ofChars given))
    (hopen : s.files.write s.current (.ofChars given) [] = .ok opened)
    (hroom : HasRoom (rateByDefault options)) (hsize : 36 + 2 * samples.length < wordLimit) :
    Completes options (scoreOf options.toScoreOptions input) (.ofChars given)
      ((render part options input).perform s) := by
  obtain ⟨mid, tones, hlogs, hrun⟩ := render_of_rendered part input h hpath hgiven hrendered
  rw [← hlogs.files_eq, ← hlogs.current_eq] at hopen
  have hwav := wav_of_hasRoom hroom (quantiseAll samples)
  rw [length_quantiseAll, if_pos hsize] at hwav
  obtain ⟨written, after, hwritten, hout, hafter⟩ :=
    writeOut_of_wav part (styleByDefault options) tones hvalid hopen hwav
  rw [hrun, hout]
  refine ⟨rfl, samples, hrendered, ?_⟩
  rw [hafter.files_eq, hafter.current_eq]
  exact Files.Node.read_of_write hwritten

/-- What has been rendered is written as a whole, or the path cannot be opened. -/
theorem render_settles_of_rendered {samples : List Float}
    (hrendered : Rendered options (scoreOf options.toScoreOptions input) samples)
    (hvalid : Action.IsPath (.ofChars given))
    (htruncates : ¬ ∃ fault, Truncates s.files s.current options
      (scoreOf options.toScoreOptions input) (.ofChars given) fault) :
    Completes options (scoreOf options.toScoreOptions input) (.ofChars given)
        ((render part options input).perform s) ∨
      Declines s ((render part options input).perform s) := by
  cases hopen : s.files.write s.current (.ofChars given) [] with
  | error cause =>
    obtain ⟨mid, tones, hlogs, hrun⟩ := render_of_rendered part input h hpath hgiven hrendered
    rw [← hlogs.files_eq, ← hlogs.current_eq] at hopen
    obtain ⟨after, hrefused, hends⟩ := writeOut_of_refused part (.int (rateByDefault options))
      (styleByDefault options) tones samples hvalid hopen
    rw [hrun, hrefused]
    exact Or.inr ⟨rfl, hends.of_logs hlogs⟩
  | ok opened =>
    have hroom : HasRoom (rateByDefault options) :=
      by_contra fun hrate => htruncates ⟨_, .rate hrendered hvalid hopen hrate⟩
    have hsize : 36 + 2 * samples.length < wordLimit :=
      not_le.mp fun hlarge => htruncates ⟨_, .size hrendered hvalid hopen hroom hlarge⟩
    exact Or.inl (render_completes_of_opened part input h hpath hgiven hrendered hvalid hopen
      hroom hsize)

/-- Where no run stops short or truncates the file, it completes it or declines. -/
theorem render_settles
    (hstops : ¬ ∃ fault, StopsShort options (scoreOf options.toScoreOptions input)
      (.ofChars given) fault)
    (htruncates : ¬ ∃ fault, Truncates s.files s.current options
      (scoreOf options.toScoreOptions input) (.ofChars given) fault) :
    Completes options (scoreOf options.toScoreOptions input) (.ofChars given)
        ((render part options input).perform s) ∨
      Declines s ((render part options input).perform s) := by
  obtain ⟨mid, hlogs, hrun⟩ := h.render_perform part options input
  cases hrendered : renderedByDefault options (scoreOf options.toScoreOptions input) with
  | error fault =>
    rw [hrendered] at hrun
    dsimp only at hrun
    cases hwords : fault.message? with
    | none => exact absurd ⟨fault, stopsShort_of_renderedByDefault hrendered hwords _⟩ hstops
    | some message =>
      obtain ⟨after, hfail, hends⟩ := fail_perform message hlogs
      rw [hrun, hwords]
      dsimp only
      rw [hfail]
      exact Or.inr ⟨rfl, hends⟩
  | ok result =>
    obtain ⟨tones, samples⟩ := result
    by_cases hne : tones = []
    · obtain ⟨after, hfail, hends⟩ := deliver_nil part (some given) (.int (rateByDefault options))
        (styleByDefault options) samples mid
      rw [hrendered, hne, hpath] at hrun
      rw [hrun]
      dsimp only
      rw [hfail]
      exact Or.inr ⟨rfl, hends.of_logs hlogs⟩
    · have hdone := rendered_of_eq_ok hrendered hne
      exact render_settles_of_rendered part input h hpath hgiven hdone
        (by_contra fun hinvalid => hstops ⟨_, .path hdone hinvalid⟩) htruncates

end Run

theorem HasDefaults.with_verbose (h : HasDefaults s) (verbose : Bool) :
    HasDefaults { s with verbose } := by
  refine ⟨⟨h.ready.isPath, h.ready.isDirectory⟩, ?_, h.numbers⟩
  exact h.found.congr rfl rfl rfl rfl

/-- With the default settings, a run that renders to a path completes the file or declines, unless
it stops short or truncates the file; then it ends with a fault that no message covers, and the file
is as it was, or is empty. -/
theorem render_settles_iff (part : String) (input : List Char) (given : Argument)
    {arguments : List Argument} {verbose : Bool} {options : RenderOptions} {s : Session}
    (hcall : Calls Grammars.renderTopic Grammars.render {} arguments verbose options)
    (hpath : options.path = some given) (hgiven : given ≠ []) (h : HasDefaults s) :
    (Completes options (scoreOf options.toScoreOptions input) (.ofChars given)
          ((run part arguments input).perform s) ∨
        Declines { s with verbose } ((run part arguments input).perform s) ↔
      ¬ ∃ fault, StopsShort options (scoreOf options.toScoreOptions input) (.ofChars given) fault ∨
        Truncates s.files s.current options (scoreOf options.toScoreOptions input) (.ofChars given)
          fault) ∧
    (∀ fault, StopsShort options (scoreOf options.toScoreOptions input) (.ofChars given) fault →
      ∃ after, (run part arguments input).perform s = (.error fault, after) ∧
        after.files = s.files) ∧
    (∀ fault, Truncates s.files s.current options (scoreOf options.toScoreOptions input)
        (.ofChars given) fault →
      ∃ after, (run part arguments input).perform s = (.error fault, after) ∧
        after.files.read after.current (.ofChars given) = .ok []) := by
  have hthere := h.with_verbose verbose
  rw [run_render hcall]
  refine ⟨⟨?_, ?_⟩, fun fault => render_of_stopsShort part input hthere hpath hgiven,
    fun fault => render_of_truncates part input hthere hpath hgiven⟩
  · rintro hsettled ⟨fault, hstops | htruncates⟩
    · obtain ⟨after, hrun, _⟩ := render_of_stopsShort part input hthere hpath hgiven hstops
      rw [hrun] at hsettled
      rcases hsettled with ⟨hcode, _⟩ | ⟨hcode, _⟩ <;> cases hcode
    · obtain ⟨after, hrun, _⟩ := render_of_truncates part input hthere hpath hgiven htruncates
      rw [hrun] at hsettled
      rcases hsettled with ⟨hcode, _⟩ | ⟨hcode, _⟩ <;> cases hcode
  · intro hno
    exact render_settles part input hthere hpath hgiven
      (fun ⟨fault, hstops⟩ => hno ⟨fault, Or.inl hstops⟩)
      fun ⟨fault, htruncates⟩ => hno ⟨fault, Or.inr htruncates⟩

/-! ## Within the limits -/

/-- A tuning up to `2 ^ 1000` Hertz and a rate that the header has room for never stop a run
short. -/
theorem not_stopsShort {composer : Composer}
    (hcomposer : composerByDefault options.toScoreOptions = .ok composer)
    (htuning : composer.tuning ≤ 2 ^ 1000) (hrate : HasRoom (rateByDefault options))
    (hpath : Action.IsPath path) : ¬ StopsShort options score path fault := by
  rintro (⟨hother, _, _, _, hover⟩ | ⟨_, _, _, _, hroom, _, _⟩ | ⟨_, hinvalid⟩)
  · rw [hcomposer] at hother
    cases hother
    exact absurd hover (Pitch.not_overflows _ htuning)
  · exact hroom hrate
  · exact hinvalid hpath

theorem not_truncates (hrate : HasRoom (rateByDefault options))
    (hsize : ∀ samples, Rendered options score samples → 36 + 2 * samples.length < wordLimit) :
    ¬ Truncates files current options score path fault := by
  rintro (⟨_, _, _, hroom⟩ | ⟨hrendered, _, _, _, hlarge⟩)
  · exact hroom hrate
  · exact absurd (hsize _ hrendered) (not_lt.mpr hlarge)

theorem exists_rendered_quarter :
    ∃ samples, Rendered quarterToFile "4c4".toList samples ∧ samples.length = 4000 := by
  obtain ⟨samples, hrender, hlength⟩ := exists_samples_of_isCompiled
    (Composer.isCompiled_of_compile compile_quarter) (by decide : 1 ≤ 8000) (by decide) .square 20
  exact ⟨samples, .intro composerByDefault_quarter compile_quarter (List.cons_ne_nil _ _) hrender,
    hlength⟩

theorem hasDefaults_sessionWith : HasDefaults (Settings.sessionWith Settings.defaultBytes) :=
  ⟨Settings.isReady_sessionWith _, found_sessionWith_defaultBytes, ⟨rfl, rfl⟩⟩

/-- A quarter note at 8000 Hertz is within the limits, and its file is written. -/
theorem render_settles_quarter :
    HasDefaults (Settings.sessionWith Settings.defaultBytes) ∧
      Completes quarterToFile "4c4".toList (.ofChars "out.wav".toList)
        ((run Commands.part renderQuarter []).perform
          (Settings.sessionWith Settings.defaultBytes)) := by
  have hroom : HasRoom (rateByDefault quarterToFile) := by
    constructor <;> decide
  have htuning : 440 ≤ 2 ^ 1000 := Pitch.concertTuning_le
  have hvalid : Action.IsPath (.ofChars "out.wav".toList) := rfl
  obtain ⟨samples, hrendered, hlength⟩ := exists_rendered_quarter
  have hsize : 36 + 2 * samples.length < wordLimit := by
    rw [hlength]
    decide
  obtain ⟨hsettles, _⟩ := render_settles_iff Commands.part [] "out.wav".toList calls_renderQuarter
    rfl (by decide) hasDefaults_sessionWith
  have hends := hsettles.mpr <| by
    rintro ⟨fault, hstops | htruncates⟩
    · exact not_stopsShort composerByDefault_quarter htuning hroom hvalid hstops
    · exact not_truncates hroom (fun others h => hrendered.unique h ▸ hsize) htruncates
  refine ⟨hasDefaults_sessionWith, hends.resolve_right fun hdeclines => ?_⟩
  -- the path can be opened, so that no error is reported
  have hcompletes := render_completes_of_opened Commands.part [] hasDefaults_sessionWith rfl
    (by decide) hrendered hvalid rfl hroom hsize
  rw [run_render calls_renderQuarter] at hdeclines
  cases hcompletes.1.symm.trans hdeclines.1

/-! ## A rate below zero -/

/-- A session with the default settings and a file besides. -/
def sessionBeside (content : List UInt8) : Session :=
  { Settings.sessionWith Settings.defaultBytes with
    files := (Settings.sessionWith Settings.defaultBytes).files.put ["out.wav".toList]
      (.file content) }

/-- The arguments that render a quarter note at a rate of minus one. -/
def negativeRate : List Argument :=
  ["render", "4c4", "--sample-rate", "-1", "-o", "out.wav"].map String.toList

/-- The options that render a quarter note at a rate of minus one. -/
def negativeOptions : RenderOptions :=
  { score := some "4c4".toList, rate := some (-1), path := some "out.wav".toList }

theorem calls_negativeRate :
    Calls Grammars.renderTopic Grammars.render {} negativeRate false negativeOptions :=
  ⟨_, by cbv, by cbv⟩

theorem hasDefaults_sessionBeside (content : List UInt8) : HasDefaults (sessionBeside content) := by
  refine ⟨⟨rfl, rfl⟩, ?_, ⟨rfl, rfl⟩⟩
  rw [← Settings.contentsOf_defaultBytes .usual]
  exact .file rfl

/-- At a rate of minus one there are no samples. -/
theorem rendered_negativeOptions : ∃ samples, Rendered negativeOptions "4c4".toList samples := by
  have hkernel : (samplesByDefault negativeOptions [⟨262, 500⟩]).toOption.isSome = true := by
    decide +kernel
  cases hsamples : samplesByDefault negativeOptions [⟨262, 500⟩] with
  | ok samples => exact ⟨samples, .intro rfl compile_quarter (List.cons_ne_nil _ _) hsamples⟩
  | error fault =>
    rw [hsamples] at hkernel
    cases hkernel

/-- A rate of minus one is refused when the file has been opened, and what it held is gone. -/
theorem render_negative_rate :
    (sessionBeside [0x6B]).files.read (sessionBeside [0x6B]).current (.ofChars "out.wav".toList) =
        .ok [0x6B] ∧
      ∃ after, (run Commands.part negativeRate []).perform (sessionBeside [0x6B]) =
          (.error .headerField, after) ∧
        after.files.read after.current (.ofChars "out.wav".toList) = .ok [] := by
  obtain ⟨samples, hrendered⟩ := rendered_negativeOptions
  have htruncates : Truncates (sessionBeside [0x6B]).files (sessionBeside [0x6B]).current
      negativeOptions "4c4".toList (.ofChars "out.wav".toList) .headerField :=
    .rate hrendered rfl rfl (by rintro ⟨hnonneg, _⟩; exact absurd hnonneg (by decide))
  refine ⟨rfl, ?_⟩
  rw [run_render calls_negativeRate]
  exact render_of_truncates Commands.part [] (hasDefaults_sessionBeside _) rfl (by decide)
    htruncates

end Ringtone.Commands
