import Ringtone.Proofs.CommandRuns
import Ringtone.Proofs.ScoreRendering
import Ringtone.Proofs.WavFiles

/-!
# Rendering to a file

A run that renders loads the settings, renders the score and only then opens the file. What it opens
is empty until the header is made. Where compiling prints tones, rendering with the same score,
tempo and tuning writes the file of just these tones, and changes no other file than loading does.
-/

namespace Ringtone.Commands

open CommandLine Number Sound

variable {s mid after : Session} {members : Members}

/-! ## From the score to the samples -/

/-- The tones of a score and their samples, given the settings of the file. -/
def renderedGiven (options : ScoreOptions) (members : Members) (environment : Environment)
    (score : List Char) (rate style gap : Value) : Except Fault (List Tone × List Float) := do
  let tones ← tonesGiven options members environment score
  let samples ← renderTones tones rate style gap
  return (tones, samples)

/-- Rendering a score, once rate, style and gap are known. -/
def renderScore (options : ScoreOptions) (score : List Char) (rate style gap : Value) :
    Action (List Tone × List Float) := do
  let tones ← compileScore (← composerFor options) score
  let samples ← ofExcept (renderTones tones rate style gap)
  return (tones, samples)

theorem renderScore_perform (options : ScoreOptions) (score : List Char) (rate style gap : Value)
    (h : Settings.load.perform s = (.ok members, mid)) :
    ∃ after, (renderScore options score rate style gap).perform s =
      (renderedGiven options members mid.environment score rate style gap, after) ∧
        mid.Logs after := by
  have hsplit : renderScore options score rate style gap =
      (composerFor options >>= fun composer => compileScore composer score) >>= fun tones => do
        let samples ← ofExcept (renderTones tones rate style gap)
        return (tones, samples) := (bind_assoc _ _ _).symm
  rw [hsplit]
  refine Action.exists_perform_bind (tones_perform options score h) fun tones mid => ?_
  exact Action.exists_perform_bind (Action.exists_perform_ofExcept _ mid) fun _ last =>
    ⟨last, rfl, .refl last⟩

/-! ## From the samples to the file -/

/-- Telling what has been rendered, and where to. -/
def announce (part : String) (tones : List Tone) (rate style : Value) (path : Files.Path) :
    Action Nat := do
  Action.debug part
    ("Rendered " ++ numeral tones.length ++ " notes with " ++ style.shown ++ " at "
      ++ rateText rate ++ " Hz")
  Action.say path.toString
  return success

/-- Writing samples to a file and telling so. -/
def writeOut (part : String) (rate style : Value) (path : Files.Path) (tones : List Tone)
    (samples : List Float) : Action Nat :=
  reporting (writeMessage? path) (writeSamples samples path rate) fun () =>
    announce part tones rate style path

/-- Finding the path for what has been rendered, and writing it there. -/
def deliver (part : String) (given : Option Argument) (rate style : Value) (tones : List Tone)
    (samples : List Float) : Action Nat := do
  if tones.isEmpty then fail "No notes to render"
  else
    let path ← pathFor given
    writeOut part rate style path tones samples

theorem render_eq (part : String) (options : RenderOptions) (input : List Char) :
    render part options input = (do
      let given ← Settings.rendering
      let style ← ofExcept (styleFor options.style given)
      let rate ← ofExcept (rateFor options.rate given)
      let gap ← ofExcept (gapFor options.gap given)
      reporting Fault.message?
        (renderScore options.toScoreOptions (scoreOf options.toScoreOptions input) rate style gap)
        fun (tones, samples) => deliver part options.path rate style tones samples) := rfl

variable {part : String} {rate style : Value} {path : Files.Path} {tones : List Tone}
  {samples : List Float}

theorem announce_perform (part : String) (tones : List Tone) (rate style : Value)
    (path : Files.Path) (s : Session) :
    ∃ after, (announce part tones rate style path).perform s = (.ok success, after) ∧
      ({ s with output := s.output ++ path.toString ++ "\n" }).Logs after := by
  obtain ⟨mid, hdebug, lines, known, rfl⟩ := Action.debug_perform part
    ("Rendered " ++ numeral tones.length ++ " notes with " ++ style.shown ++ " at "
      ++ rateText rate ++ " Hz") s
  rw [announce, Action.perform_bind_of_ok hdebug]
  exact ⟨_, rfl, lines, known, rfl⟩

theorem writeOut_of_not_isPath (h : ¬ Action.IsPath path) :
    (writeOut part rate style path tones samples).perform s = (.error .pathTerminator, s) := by
  refine reporting_of_silent ?_ rfl
  rw [writeSamples, Action.perform_bind_of_error (Action.writeFile_of_not_isPath h [] s)]

theorem writeOut_of_refused (part : String) (rate style : Value) (tones : List Tone)
    (samples : List Float) {cause : Files.Cause} (hpath : Action.IsPath path)
    (h : s.files.write s.current path [] = .error cause) :
    ∃ after, (writeOut part rate style path tones samples).perform s = (.ok failure, after) ∧
      EndsWithError s after := by
  have hwrite : (writeSamples samples path rate).perform s =
      (.error (Action.fileFault path cause), s) := by
    rw [writeSamples, Action.perform_bind_of_error (Action.writeFile_of_error hpath h)]
  obtain ⟨after, hfail, hends⟩ := fail_perform
    ("Cannot write " ++ path.toString ++ ": " ++ (Files.Fault.mk cause path.text).message) (.refl s)
  exact ⟨after, (reporting_of_message hwrite rfl).trans hfail, hends⟩

/-- The file is opened before the header is made. -/
theorem writeOut_of_wav_error {opened : Files.Node} {fault : Fault} (hpath : Action.IsPath path)
    (hopen : s.files.write s.current path [] = .ok opened)
    (h : wav rate (quantiseAll samples) = .error fault)
    (hsilent : writeMessage? path fault = none) :
    (writeOut part rate style path tones samples).perform s =
      (.error fault, { s with files := opened }) := by
  have hwav := Action.perform_ofExcept (wav rate (quantiseAll samples)) { s with files := opened }
  rw [h] at hwav
  refine reporting_of_silent ?_ hsilent
  rw [writeSamples, Action.perform_bind_of_ok (Action.writeFile_of_ok hpath hopen), h,
    Action.perform_bind_of_error hwav]

theorem writeSamples_of_wav {opened written : Files.Node} {content : List UInt8}
    (hpath : Action.IsPath path) (hopen : s.files.write s.current path [] = .ok opened)
    (hwrite : opened.write s.current path content = .ok written)
    (h : wav rate (quantiseAll samples) = .ok content) :
    ∃ after, (writeSamples samples path rate).perform s = (.ok ⟨⟩, after) ∧
      ({ s with files := written }).Logs after := by
  have hwav := Action.perform_ofExcept (wav rate (quantiseAll samples)) { s with files := opened }
  rw [h] at hwav
  have hlater := Action.writeFile_of_ok (s := { s with files := opened }) hpath hwrite
  rw [writeSamples, Action.perform_bind_of_ok (Action.writeFile_of_ok hpath hopen), h,
    Action.perform_bind_of_ok hwav, Action.perform_bind_of_ok hlater]
  exact Action.debug_perform _ _ _

theorem writeOut_of_wav (part : String) (style : Value) (tones : List Tone)
    {opened : Files.Node} {content : List UInt8} (hpath : Action.IsPath path)
    (hopen : s.files.write s.current path [] = .ok opened)
    (h : wav rate (quantiseAll samples) = .ok content) :
    ∃ written after, opened.write s.current path content = .ok written ∧
      (writeOut part rate style path tones samples).perform s = (.ok success, after) ∧
      ({ s with files := written, output := s.output ++ path.toString ++ "\n" }).Logs after := by
  obtain ⟨written, hwrite⟩ := Files.Node.exists_write_of_write hopen content
  obtain ⟨mid, hsamples, hlogs⟩ := writeSamples_of_wav hpath hopen hwrite h
  obtain ⟨after, hannounce, hmore⟩ := announce_perform part tones rate style path mid
  refine ⟨written, after, hwrite, (reporting_of_ok hsamples).trans hannounce, ?_⟩
  obtain ⟨lines, known, rfl⟩ := hlogs
  exact Session.Logs.trans ⟨lines, known, rfl⟩ hmore

/-- Samples that the header has room for leave, at a path that can be opened, the file that declares
them, and everything else as it was. -/
theorem writeOut_of_hasRoom (part : String) (style : Value) (tones : List Tone) {rate : ℕ}
    {opened : Files.Node} (hpath : Action.IsPath path)
    (hcurrent : s.files.kindAt? s.current = some .directory)
    (hopen : s.files.write s.current path [] = .ok opened) (hrate : 2 * rate < wordLimit)
    (hsize : 36 + 2 * (quantiseAll samples).length < wordLimit) :
    ∃ after place file,
      (writeOut part (.int rate) style path tones samples).perform s = (.ok success, after) ∧
      after.output = s.output ++ path.toString ++ "\n" ∧ s.files.Keeps after.files ∧
      after.files.placeOf s.current path = .ok place ∧
      after.files.kindAt? place = some (.file file) ∧
      Declares file rate (pcmBytes (quantiseAll samples)) ∧
      ∀ other, other ≠ place → after.files.kindAt? other = s.files.kindAt? other := by
  obtain ⟨written, after, hwritten, hrun, hafter⟩ :=
    writeOut_of_wav part style tones hpath hopen (wav_natCast hrate hsize)
  obtain ⟨place, hplace, hfile, hothers⟩ :=
    Files.Node.kindAt?_of_write_write hcurrent hopen hwritten
  have hfiles : after.files = written := hafter.files_eq
  refine ⟨after, place, _, hrun, hafter.output_eq, ?_, hfiles ▸ hplace, hfiles ▸ hfile,
    declares_wavFile hrate hsize, hfiles ▸ hothers⟩
  rw [hfiles]
  exact (Files.Node.keeps_of_write hopen).trans (Files.Node.keeps_of_write hwritten)

theorem deliver_nil (part : String) (given : Option Argument) (rate style : Value)
    (samples : List Float) (s : Session) :
    ∃ after, (deliver part given rate style [] samples).perform s = (.ok failure, after) ∧
      EndsWithError s after :=
  fail_perform "No notes to render" (.refl s)

theorem deliver_of_ne_nil {given : Argument} (hgiven : given ≠ []) (htones : tones ≠ []) :
    deliver part (some given) rate style tones samples =
      writeOut part rate style (.ofChars given) tones samples := by
  obtain ⟨c, rest, rfl⟩ := List.exists_cons_of_ne_nil hgiven
  rw [deliver, if_neg (by simpa using htones)]
  rfl

/-! ## A whole run -/

/-- Once the settings are loaded and there, the score is rendered and what comes of it is
delivered. -/
theorem render_of_load (part : String) (options : RenderOptions) (input : List Char)
    {rate style gap : Value} {loaded : Session}
    (hload : Settings.load.perform s = (.ok members, loaded))
    (hready : Settings.IsReady loaded) (hfound : Settings.Found loaded (.ok members))
    (hstyle : styleFor options.style (Settings.sectionOf members Settings.renderSection) =
      .ok style)
    (hrate : rateFor options.rate (Settings.sectionOf members Settings.renderSection) = .ok rate)
    (hgap : gapFor options.gap (Settings.sectionOf members Settings.renderSection) = .ok gap) :
    ∃ mid, loaded.Logs mid ∧ (render part options input).perform s =
      match renderedGiven options.toScoreOptions members loaded.environment
        (scoreOf options.toScoreOptions input) rate style gap with
      | .ok (tones, samples) => (deliver part options.path rate style tones samples).perform mid
      | .error fault =>
        match fault.message? with
        | some message => (fail message).perform mid
        | none => (.error fault, mid) := by
  obtain ⟨again, hagain, hlogs⟩ := hready.load_of_found hfound
  obtain ⟨mid, hscore, hmore⟩ := renderScore_perform options.toScoreOptions
    (scoreOf options.toScoreOptions input) rate style gap hagain
  rw [hlogs.environment_eq] at hscore
  refine ⟨mid, hlogs.trans hmore, ?_⟩
  have hgiven := Settings.rendering_perform hload
  rw [render_eq, Action.perform_bind_of_ok hgiven, hstyle, hrate, hgap]
  show (reporting _ (renderScore _ _ rate style gap) _).perform loaded = _
  cases houtcome : renderedGiven options.toScoreOptions members loaded.environment
      (scoreOf options.toScoreOptions input) rate style gap with
  | ok rendered =>
    rw [houtcome] at hscore
    rw [reporting_of_ok hscore]
  | error fault =>
    rw [houtcome] at hscore
    dsimp only
    cases hwords : fault.message? with
    | some message => rw [reporting_of_message hscore hwords]
    | none => rw [reporting_of_silent hscore hwords]

theorem styleFor_name (style : Style) (given : Value) :
    styleFor (some style.name.toList) given = .ok (.ofString style.name) := by
  cases style <;> rfl

theorem rateFor_of_ne_zero {rate : ℤ} (h : rate ≠ 0) (given : Value) :
    rateFor (some rate) given = .ok (.int rate) := if_neg h

theorem rateFor_natCast {rate : ℕ} (h : 1 ≤ rate) (given : Value) :
    rateFor (some rate) given = .ok (.int rate) :=
  rateFor_of_ne_zero (by omega) given

/-- Where compiling a score prints tones, rendering it writes the file of these tones: its header
declares the rate, one channel and sixteen bits, the samples are those of the tones, each as long as
its duration says, and the rest of the file tree is as loading the settings leaves it. -/
theorem render_agrees_with_compile (part : String) (input : List Char) (rate gap : ℕ)
    (style : Style) (given : Argument) {compiling rendering : List Argument} {verbose : Bool}
    {c : CompileOptions} {r : RenderOptions} {s compiled : Session}
    (hcompile : Calls Grammars.compileTopic Grammars.compile {} compiling verbose c)
    (hrender : Calls Grammars.renderTopic Grammars.render {} rendering verbose r)
    (hsame : r.toScoreOptions = c.toScoreOptions) (hjson : c.json = false)
    (hrate : r.rate = some ↑rate) (hpos : 1 ≤ rate) (hlimit : 2 * rate < wordLimit)
    (hstyle : r.style = some style.name.toList) (hgap : r.gap = some ↑gap)
    (hpath : r.path = some given) (hgiven : given ≠ [])
    (hscore : ∃ char ∈ scoreOf c.toScoreOptions input, Text.isBlank char = false)
    (hcurrent : s.files.kindAt? s.current = some .directory)
    (hcompiled : (run part compiling input).perform s = (.ok success, compiled))
    (hvalid : Action.IsPath (.ofChars given))
    (hwritable : ∃ opened, compiled.files.write s.current (.ofChars given) [] = .ok opened) :
    (∃ tones : List Tone, compiled.output = s.output ++ unlines (tones.map toneLine)) ∧
    ∀ tones : List Tone, compiled.output = s.output ++ unlines (tones.map toneLine) →
      36 + 2 * (tones.map fun t => samplesIn rate t.duration).sum < wordLimit →
      ∃ samples rendered place file,
        (run part rendering input).perform s = (.ok success, rendered) ∧
        rendered.output = s.output ++ (Files.Path.ofChars given).toString ++ "\n" ∧
        renderTones tones (.int rate) (.ofString style.name) (.int gap) = .ok samples ∧
        samples.length = (tones.map fun t => samplesIn rate t.duration).sum ∧
        rendered.files.placeOf s.current (.ofChars given) = .ok place ∧
        rendered.files.kindAt? place = some (.file file) ∧
        Declares file rate (pcmBytes (quantiseAll samples)) ∧
        ∀ other, other ≠ place → rendered.files.kindAt? other = s.files.kindAt? other ∨
          s.files.kindAt? other = none ∧ Settings.Fills s rendered.files other := by
  rw [run_compile hcompile] at hcompiled
  obtain ⟨members, loaded, tones, hload, htones, hprinted⟩ := compile_eq_success hjson hcompiled
  obtain ⟨hready, hfound, hprepares⟩ :=
    Settings.prepares_of_load (s := { s with verbose }) hcurrent hload
  have houtput : loaded.output = s.output := hprepares.logs.output_eq
  have hplace : loaded.current = s.current := hprepares.logs.current_eq
  have hlines : compiled.output = s.output ++ unlines (tones.map toneLine) := by
    rw [hprinted.output_eq, houtput]
  refine ⟨⟨tones, hlines⟩, fun told htold hsize => ?_⟩
  have hsameLines := congrArg String.toList (hlines.symm.trans htold)
  rw [String.toList_append, String.toList_append, List.append_cancel_left_eq] at hsameLines
  obtain rfl := eq_of_unlines_toneLine (String.toList_injective hsameLines)
  -- the tones can be rendered
  obtain ⟨composer, _, hcomposed⟩ := tonesGiven_eq_ok_iff.mp htones
  obtain ⟨samples, hsamples, hlength⟩ := exists_samples_of_isCompiled
    (Composer.isCompiled_of_compile hcomposed) hpos hlimit style gap
  have hrendered : renderedGiven r.toScoreOptions members loaded.environment
      (scoreOf r.toScoreOptions input) (.int rate) (.ofString style.name) (.int gap) =
        .ok (tones, samples) := by
    rw [hsame, renderedGiven, htones]
    simp only [bind, Except.bind, hsamples]
    rfl
  -- so the run comes to writing them
  obtain ⟨mid, hmid, hrun⟩ := render_of_load part r input hload hready hfound
    (hstyle ▸ styleFor_name style _) (hrate ▸ rateFor_natCast hpos _) (by rw [hgap]; rfl)
  rw [hrendered] at hrun
  dsimp only at hrun
  rw [hpath, deliver_of_ne_nil hgiven (Composer.compile_ne_nil hcomposed hscore)] at hrun
  have hfinal : mid.files = loaded.files := hmid.files_eq
  have hwhere : mid.current = s.current := hmid.current_eq.trans hplace
  obtain ⟨opened, hopened⟩ := hwritable
  rw [hprinted.files_eq] at hopened
  have hopen : mid.files.write mid.current (.ofChars given) [] = .ok opened := by
    rw [hfinal, hwhere, hopened]
  have hbytes : 36 + 2 * (quantiseAll samples).length < wordLimit := by
    simpa [quantiseAll, hlength] using hsize
  have hdirectory : mid.files.kindAt? mid.current = some .directory := by
    rw [hfinal, hwhere]
    exact hprepares.keeps _ hcurrent
  -- the file is there, and only loading has changed anything else
  obtain ⟨rendered, place, file, hout, hprints, hkeeps, hat, hfile, hdeclares, hothers⟩ :=
    writeOut_of_hasRoom part (.ofString style.name) tones hvalid hdirectory hopen hlimit hbytes
  rw [hwhere] at hat
  rw [hfinal] at hkeeps hothers
  refine ⟨samples, rendered, place, file, ?_, ?_, hsamples, hlength, hat, hfile, hdeclares, ?_⟩
  · rw [run_render hrender, hrun, hout]
  · rw [hprints, hmid.output_eq, houtput]
  · intro other hother
    rw [hothers other hother]
    exact (hprepares.files other).imp_right fun ⟨hnone, hfills⟩ =>
      ⟨hnone, hfills.of_keeps hkeeps (hothers other hother)⟩

theorem compile_quarter :
    Composer.compile ⟨⟨120, by decide⟩, 440, by decide⟩ "4c4".toList = .ok [⟨262, 500⟩] :=
  eq_ok_of_toOption (by decide +kernel)

/-- The options of a quarter note. -/
def quarter : ScoreOptions := { score := some "4c4".toList, tempo := some 120, tuning := some 440 }

/-- The options that render a quarter note to a file. -/
def quarterToFile : RenderOptions :=
  { toScoreOptions := quarter, path := some "out.wav".toList, style := some Style.square.name.toList
    rate := some 8000, gap := some 20 }

/-- The arguments that print a quarter note. -/
def compileQuarter : List Argument :=
  ["compile", "4c4", "--bpm", "120", "--a4", "440"].map String.toList

/-- The arguments that render a quarter note. -/
def renderQuarter : List Argument :=
  ["render", "4c4", "--bpm", "120", "--a4", "440", "--sample-rate", "8000", "--style", "square",
    "--gap-ms", "20", "-o", "out.wav"].map String.toList

theorem calls_compileQuarter : Calls Grammars.compileTopic Grammars.compile {} compileQuarter false
    { toScoreOptions := quarter } :=
  ⟨_, by cbv, by cbv⟩

theorem calls_renderQuarter :
    Calls Grammars.renderTopic Grammars.render {} renderQuarter false quarterToFile :=
  ⟨_, by cbv, by cbv⟩

theorem composerByDefault_quarter :
    composerByDefault quarter = .ok ⟨⟨120, by decide⟩, 440, by decide⟩ := rfl

theorem found_sessionWith_defaultBytes :
    Settings.Found (Settings.sessionWith Settings.defaultBytes) (.ok Settings.defaults) := by
  rw [← Settings.contentsOf_defaultBytes .usual]
  exact .file (Settings.read_sessionWith Settings.defaultBytes)

theorem tonesGiven_quarter :
    tonesGiven quarter Settings.defaults (Settings.sessionWith Settings.defaultBytes).environment
      "4c4".toList = .ok [⟨262, 500⟩] := by
  have hnumbers : Settings.HasNoNumbers
      (Settings.sessionWith Settings.defaultBytes).environment := ⟨rfl, rfl⟩
  refine tonesGiven_eq_ok_iff.mpr ⟨_, ?_, compile_quarter⟩
  rw [composerGiven_defaults hnumbers, composerByDefault_quarter]

/-- A quarter note is printed as 500 milliseconds of 262 Hertz, and at 8000 Hertz its file has 4000
samples. -/
theorem render_agrees_with_compile_quarter :
    ∃ compiled, (run Commands.part compileQuarter []).perform
        (Settings.sessionWith Settings.defaultBytes) = (.ok success, compiled) ∧
      compiled.output = "262 500\n" ∧
      ∃ samples rendered place file, (run Commands.part renderQuarter []).perform
          (Settings.sessionWith Settings.defaultBytes) = (.ok success, rendered) ∧
        rendered.output = "out.wav\n" ∧ rendered.files.kindAt? place = some (.file file) ∧
        Declares file 8000 (pcmBytes (quantiseAll samples)) ∧ samples.length = 4000 := by
  have hready := Settings.isReady_sessionWith Settings.defaultBytes
  obtain ⟨loaded, hload, hlogs⟩ := hready.load_of_found found_sessionWith_defaultBytes
  obtain ⟨mid, htones, hmore⟩ := tones_perform quarter "4c4".toList hload
  rw [hlogs.environment_eq, tonesGiven_quarter] at htones
  have hprints : (compile { toScoreOptions := quarter } []).perform
      (Settings.sessionWith Settings.defaultBytes) = (.ok success, { mid with
        output := mid.output ++ unlines ([Tone.mk 262 500].map toneLine) }) :=
    compile_of_tones rfl htones
  have hcompiled := (run_compile calls_compileQuarter Commands.part []
    (Settings.sessionWith Settings.defaultBytes)).trans hprints
  have hfiles : mid.files = (Settings.sessionWith Settings.defaultBytes).files :=
    hmore.files_eq.trans hlogs.files_eq
  have houtput : mid.output = "" := hmore.output_eq.trans hlogs.output_eq
  have hprinted : mid.output ++ unlines ([Tone.mk 262 500].map toneLine) = "262 500\n" := by
    rw [houtput]
    decide
  obtain ⟨_, hrenders⟩ := render_agrees_with_compile Commands.part [] 8000 20 .square
    "out.wav".toList calls_compileQuarter calls_renderQuarter rfl rfl rfl (by decide) (by decide)
    rfl rfl rfl (by decide) ⟨'4', by decide, by decide⟩ rfl hcompiled rfl
    ⟨_, by rw [hfiles]; rfl⟩
  obtain ⟨samples, rendered, place, file, hrun, hout, _, hlength, _, hfile, hdeclares, _⟩ :=
    hrenders [⟨262, 500⟩] hprinted (by decide)
  exact ⟨_, hcompiled, hprinted, samples, rendered, place, file, hrun, hout, hfile, hdeclares,
    hlength⟩

end Ringtone.Commands
