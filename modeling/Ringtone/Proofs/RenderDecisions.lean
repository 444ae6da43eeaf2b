import Ringtone.Proofs.RenderFaults
import Ringtone.Proofs.SettingsSections

/-!
# What decides a render run

Two runs with the same arguments, of which each setting is given by one, come to the same end
whatever the file of the settings holds and the variables of the composer say, as long as the
sections are objects. There are two exceptions. A score that is empty counts as not given and is
taken from the input, and a rate of zero counts as not given and is taken from the settings.
-/

namespace Ringtone

open CommandLine Files Number Sound

variable {s t mid otherMid : Session} {place : Place}

/-! ## Sessions that differ in the settings -/

namespace Settings

/-- The bytes are the text of an object whose sections are objects. -/
structure HasSections (nesting : Value.Nesting) (bytes : List UInt8) (given : Members) : Prop where
  isObjectText : IsObjectText nesting bytes given
  composer : ∀ value, ¬ Displaces nesting bytes composerSection value
  render : ∀ value, ¬ Displaces nesting bytes renderSection value

/-- The rate that loaded settings give. -/
def rateOf (members : Members) : Except Fault Value :=
  settingOf (sectionOf members renderSection) rateName defaultRate

/-- The two sessions have some bytes each in the file of the settings, and perhaps different
variables of the composer. They have the same other files and variables, the same directory and the
same output. -/
structure Differ (s t : Session) (bytes otherBytes : List UInt8) : Prop where
  ready : IsReady s
  read : s.files.read s.current (Places.settingsFile s.environment) = .ok bytes
  read_other : t.files.read s.current (Places.settingsFile s.environment) = .ok otherBytes
  elsewhere : ∀ place, s.files.placeOf s.current (Places.settingsFile s.environment) ≠ .ok place →
    t.files.kindAt? place = s.files.kindAt? place
  current : t.current = s.current
  output : t.output = s.output
  get?_eq : ∀ name, name ≠ tempoVariable → name ≠ tuningVariable →
    t.environment.get? name = s.environment.get? name

variable {bytes otherBytes : List UInt8}

/-- The variables of the composer do not say where the settings are. -/
theorem Differ.settingsDirectory_eq (h : Differ s t bytes otherBytes) :
    Places.settingsDirectory t.environment = Places.settingsDirectory s.environment := by
  have hdirectory := h.get?_eq directoryVariable (by decide) (by decide)
  have hsettings := h.get?_eq Places.settingsVariable (by decide) (by decide)
  have hhome := h.get?_eq "HOME" (by decide) (by decide)
  rw [Places.settingsDirectory, Places.settingsDirectory, Places.directoryFor,
    Places.directoryFor, Places.belowHome, Places.belowHome, hdirectory, hsettings, hhome]

theorem Differ.settingsFile_eq (h : Differ s t bytes otherBytes) :
    Places.settingsFile t.environment = Places.settingsFile s.environment := by
  rw [Places.settingsFile, h.settingsDirectory_eq, Places.settingsFile]

/-- A file stands at the place of the settings, so that the other session has every directory. -/
theorem Differ.keeps (h : Differ s t bytes otherBytes) : s.files.Keeps t.files := by
  obtain ⟨place, hplace, hfile⟩ := Node.read_eq_ok_iff.mp h.read
  intro other hother
  rw [h.elsewhere other, hother]
  intro hsame
  rw [hplace] at hsame
  cases hsame
  rw [hfile] at hother
  cases hother

theorem Differ.isReady_other (h : Differ s t bytes otherBytes) : IsReady t := by
  refine ⟨h.settingsDirectory_eq ▸ h.ready.isPath, ?_⟩
  obtain ⟨place, hplace, hdirectory⟩ := Node.isDirectory_eq_true_iff.mp h.ready.isDirectory
  rw [h.settingsDirectory_eq, h.current]
  exact Node.isDirectory_eq_true_iff.mpr ⟨place, h.keeps.placeOf hplace, h.keeps place hdirectory⟩

theorem Differ.found (h : Differ s t bytes otherBytes) : Found s (contentsOf s.nesting bytes) :=
  .file h.read

theorem Differ.found_other (h : Differ s t bytes otherBytes) :
    Found t (contentsOf t.nesting otherBytes) := by
  refine .file ?_
  rw [h.current, h.settingsFile_eq]
  exact h.read_other

theorem Differ.with_verbose (h : Differ s t bytes otherBytes) (verbose : Bool) :
    Differ { s with verbose } { t with verbose } bytes otherBytes :=
  ⟨⟨h.ready.isPath, h.ready.isDirectory⟩, h.read, h.read_other, h.elsewhere, h.current, h.output,
    h.get?_eq⟩

end Settings

namespace Commands

/-! ## Ends that agree -/

/-- The sessions have the same output, and the same files but for that of the settings. -/
structure Alike (place : Place) (s t : Session) : Prop where
  settings : s.files.placeOf s.current (Places.settingsFile s.environment) = .ok place
  files : s.files.AlikeBut place t.files
  current : t.current = s.current
  output : t.output = s.output

theorem Alike.of_differ {bytes otherBytes : List UInt8}
    (h : Settings.Differ s t bytes otherBytes) : ∃ place, Alike place s t := by
  obtain ⟨place, hplace, hfile⟩ := Node.read_eq_ok_iff.mp h.read
  obtain ⟨otherPlace, hotherPlace, hotherFile⟩ := Node.read_eq_ok_iff.mp h.read_other
  rw [h.keeps.placeOf hplace] at hotherPlace
  cases hotherPlace
  refine ⟨place, hplace, ⟨⟨bytes, hfile⟩, ⟨otherBytes, hotherFile⟩, fun other hother => ?_⟩,
    h.current, h.output⟩
  refine h.elsewhere other ?_
  rw [hplace]
  intro hsame
  cases hsame
  exact hother rfl

theorem Alike.of_logs (h : Alike place s t) (hlogs : s.Logs mid) (hother : t.Logs otherMid) :
    Alike place mid otherMid := by
  obtain ⟨_, _, rfl⟩ := hlogs
  obtain ⟨_, _, rfl⟩ := hother
  exact ⟨h.settings, h.files, h.current, h.output⟩

/-- Two runs, one from either session, end in the same way and with the same output, and the same
file is at the path then. If the path leads to the settings, it may also be that neither run has
changed a file. -/
structure EndAlike (path : Files.Path) (s t : Session)
    (result otherResult : Except Fault Nat × Session) : Prop where
  outcome : otherResult.1 = result.1
  output : otherResult.2.output = result.2.output
  file : otherResult.2.files.read s.current path = result.2.files.read s.current path ∨
    s.files.placeOf s.current path =
        s.files.placeOf s.current (Places.settingsFile s.environment) ∧
      result.2.files = s.files ∧ otherResult.2.files = t.files

variable {path : Files.Path} {result otherResult : Except Fault Nat × Session}

theorem EndAlike.of_logs (h : EndAlike path mid otherMid result otherResult) (hlogs : s.Logs mid)
    (hother : t.Logs otherMid) : EndAlike path s t result otherResult := by
  obtain ⟨_, _, rfl⟩ := hlogs
  obtain ⟨_, _, rfl⟩ := hother
  exact ⟨h.outcome, h.output, h.file⟩

theorem EndAlike.of_verbose {verbose : Bool}
    (h : EndAlike path { s with verbose } { t with verbose } result otherResult) :
    EndAlike path s t result otherResult := ⟨h.outcome, h.output, h.file⟩

/-- Runs that end in the same way agree when neither changes a file or prints anything. -/
theorem Alike.endAlike_of_unchanged (h : Alike place s t) (path : Files.Path)
    (houtcome : otherResult.1 = result.1) (hfiles : result.2.files = s.files)
    (hotherFiles : otherResult.2.files = t.files) (houtput : result.2.output = s.output)
    (hotherOutput : otherResult.2.output = t.output) : EndAlike path s t result otherResult := by
  refine ⟨houtcome, ?_, ?_⟩
  · rw [hotherOutput, houtput, h.output]
  · by_cases hpath : s.files.placeOf s.current path = .ok place
    · exact Or.inr ⟨hpath.trans h.settings.symm, hfiles, hotherFiles⟩
    · left
      rw [hotherFiles, hfiles]
      exact h.files.read_eq hpath

/-- Runs that end with a message agree. -/
theorem Alike.endAlike_of_endsWithError (h : Alike place s t) (path : Files.Path)
    (houtcome : otherResult.1 = result.1) (hends : EndsWithError s result.2)
    (hotherEnds : EndsWithError t otherResult.2) : EndAlike path s t result otherResult := by
  obtain ⟨_, _, _, hafter⟩ := hends
  obtain ⟨_, _, _, hotherAfter⟩ := hotherEnds
  refine h.endAlike_of_unchanged path houtcome ?_ ?_ ?_ ?_
  · rw [hafter]
  · rw [hotherAfter]
  · rw [hafter]
  · rw [hotherAfter]

theorem Alike.endAlike_of_fail (h : Alike place s t) (path : Files.Path) (message : String) :
    EndAlike path s t ((fail message).perform s) ((fail message).perform t) := by
  obtain ⟨after, hfail, hends⟩ := fail_perform message (.refl s)
  obtain ⟨otherAfter, hotherFail, hotherEnds⟩ := fail_perform message (.refl t)
  rw [hfail, hotherFail]
  exact h.endAlike_of_endsWithError path rfl hends hotherEnds

/-! ## Each step to the end -/

theorem headerRate_eq_error {rate : Value} {fault : Fault} (h : headerRate rate = .error fault) :
    fault = .headerField ∨ fault = .wrongKind := by
  cases rate with
  | int n =>
    rw [headerRate] at h
    split_ifs at h
    cases h
    exact Or.inl rfl
  | bool b => cases h
  | null | object _ =>
    cases h
    exact Or.inr rfl
  | real _ | text _ | list _ =>
    cases h
    exact Or.inl rfl

/-- No message tells why the content of a file cannot be made. -/
theorem writeMessage?_of_wav_error {rate : Value} {samples : List Int} {fault : Fault}
    (h : wav rate samples = .error fault) (path : Files.Path) :
    writeMessage? path fault = none := by
  rw [wav] at h
  cases hrate : platform.headerRate rate with
  | ok n =>
    rw [hrate] at h
    simp only [bind, Except.bind] at h
    split_ifs at h
    · cases h
    · rw [← Except.error.inj h]
      rfl
  | error cause =>
    rw [hrate] at h
    rw [← Except.error.inj h]
    rcases headerRate_eq_error hrate with rfl | rfl <;> rfl

/-- Writing the same samples to the same path comes to the same end. -/
theorem Alike.endAlike_of_writeOut (h : Alike place s t) (part : String) (rate style : Value)
    (path : Files.Path) (tones : List Tone) (samples : List Float) :
    EndAlike path s t ((writeOut part rate style path tones samples).perform s)
      ((writeOut part rate style path tones samples).perform t) := by
  by_cases hpath : Action.IsPath path
  · rcases h.files.write_cases s.current path [] with
      ⟨cause, hrefused, hotherRefused⟩ | ⟨opened, otherOpened, hopen, hotherOpen⟩
    · rw [← h.current] at hotherRefused
      obtain ⟨after, hrun, hends⟩ :=
        writeOut_of_refused part rate style tones samples hpath hrefused
      obtain ⟨otherAfter, hotherRun, hotherEnds⟩ :=
        writeOut_of_refused part rate style tones samples hpath hotherRefused
      rw [hrun, hotherRun]
      exact h.endAlike_of_endsWithError path rfl hends hotherEnds
    · have hotherOpen' := hotherOpen
      rw [← h.current] at hotherOpen'
      cases hwav : wav rate (quantiseAll samples) with
      | error fault =>
        -- both files are empty
        have hsilent := writeMessage?_of_wav_error hwav path
        rw [writeOut_of_wav_error hpath hopen hwav hsilent,
          writeOut_of_wav_error hpath hotherOpen' hwav hsilent]
        refine ⟨rfl, h.output, Or.inl ?_⟩
        exact (Node.read_of_write hotherOpen).trans (Node.read_of_write hopen).symm
      | ok content =>
        obtain ⟨written, after, hwrite, hrun, hlogs⟩ :=
          writeOut_of_wav part style tones hpath hopen hwav
        obtain ⟨otherWritten, otherAfter, hotherWrite, hotherRun, hotherLogs⟩ :=
          writeOut_of_wav part style tones hpath hotherOpen' hwav
        rw [h.current] at hotherWrite
        rw [hrun, hotherRun]
        refine ⟨rfl, ?_, Or.inl ?_⟩
        · rw [hotherLogs.output_eq, hlogs.output_eq, h.output]
        · rw [hotherLogs.files_eq, hlogs.files_eq]
          exact (Node.read_of_write hotherWrite).trans (Node.read_of_write hwrite).symm
  · rw [writeOut_of_not_isPath hpath, writeOut_of_not_isPath hpath]
    exact h.endAlike_of_unchanged path rfl rfl rfl rfl rfl

theorem Alike.endAlike_of_deliver (h : Alike place s t) (part : String) {given : Argument}
    (hgiven : given ≠ []) (rate style : Value) (tones : List Tone) (samples : List Float) :
    EndAlike (.ofChars given) s t ((deliver part (some given) rate style tones samples).perform s)
      ((deliver part (some given) rate style tones samples).perform t) := by
  cases tones with
  | nil =>
    obtain ⟨after, hrun, hends⟩ := deliver_nil part (some given) rate style samples s
    obtain ⟨otherAfter, hotherRun, hotherEnds⟩ := deliver_nil part (some given) rate style samples t
    rw [hrun, hotherRun]
    exact h.endAlike_of_endsWithError _ rfl hends hotherEnds
  | cons tone rest =>
    rw [deliver_of_ne_nil hgiven (List.cons_ne_nil tone rest)]
    exact h.endAlike_of_writeOut part rate style (.ofChars given) (tone :: rest) samples

/-! ## Explicit arguments -/

/-- The options of a run that is told everything. -/
def explicitly (score given : Argument) (style : Style) (rate gap tempo tuning : ℤ) :
    RenderOptions :=
  { score := some score, path := some given, style := some style.name.toList, rate := some rate
    gap := some gap, tempo := some tempo, tuning := some tuning }

/-- The tones of a score and their samples, where nothing is left to the settings. -/
def renderedExplicitly (tempo tuning : ℤ) (score : List Char) (rate style gap : Value) :
    Except Fault (List Tone × List Float) := do
  let composer ← Composer.make (.int tempo) (.int tuning)
  let tones ← composer.compile score
  let samples ← renderTones tones rate style gap
  return (tones, samples)

variable {score given : Argument} {style : Style} {rate gap tempo tuning : ℤ} {members : Members}

theorem renderedGiven_explicitly {environment : Environment} {inner : Members}
    (h : Settings.sectionOf members Settings.composerSection = .object inner)
    (text : List Char) (rateValue styleValue gapValue : Value) :
    renderedGiven (explicitly score given style rate gap tempo tuning).toScoreOptions members
        environment text rateValue styleValue gapValue =
      renderedExplicitly tempo tuning text rateValue styleValue gapValue := by
  rw [renderedGiven, tonesGiven, composerGiven, Settings.composerFrom_of_object h]
  show (Composer.make (.int tempo) (.int tuning) >>= fun composer => composer.compile text) >>= _ =
    renderedExplicitly tempo tuning text rateValue styleValue gapValue
  rw [bind_assoc]
  rfl

/-- How a run ends once the score has been rendered, or could not be. -/
def conclude (part : String) (given : Argument) (rate style : Value)
    (rendered : Except Fault (List Tone × List Float)) (s : Session) :
    Except Fault Nat × Session :=
  match rendered with
  | .ok (tones, samples) => (deliver part (some given) rate style tones samples).perform s
  | .error fault =>
    match fault.message? with
    | some message => (fail message).perform s
    | none => (.error fault, s)

theorem Alike.endAlike_of_conclude (h : Alike place s t) (part : String) (hgiven : given ≠ [])
    (rate style : Value) (rendered : Except Fault (List Tone × List Float)) :
    EndAlike (.ofChars given) s t (conclude part given rate style rendered s)
      (conclude part given rate style rendered t) := by
  cases rendered with
  | ok result =>
    obtain ⟨tones, samples⟩ := result
    exact h.endAlike_of_deliver part hgiven rate style tones samples
  | error fault =>
    unfold conclude
    dsimp only
    cases fault.message? with
    | some message => exact h.endAlike_of_fail _ message
    | none => exact h.endAlike_of_unchanged _ rfl rfl rfl rfl rfl

/-- Where the sections are objects, a run that is told everything ends as the score, the rate in
force and the arguments say. -/
theorem render_explicitly {bytes : List UInt8} {first : Members} {rateValue : Value} (part : String)
    (score given : Argument) (style : Style) (gap tempo tuning : ℤ) (input : List Char)
    (hready : Settings.IsReady s) (hfound : Settings.Found s (Settings.contentsOf s.nesting bytes))
    (h : Settings.HasSections s.nesting bytes first)
    (hrate : rateFor (some rate)
      (Settings.sectionOf (Settings.overlaid first) Settings.renderSection) = .ok rateValue) :
    ∃ mid, s.Logs mid ∧
      (render part (explicitly score given style rate gap tempo tuning) input).perform s =
        conclude part given rateValue (.ofString style.name)
          (renderedExplicitly tempo tuning
            (scoreOf (explicitly score given style rate gap tempo tuning).toScoreOptions input)
            rateValue (.ofString style.name) (.int gap)) mid := by
  have hcontents := Settings.contentsOf_of_isObjectText h.isObjectText
  obtain ⟨inner, hinner⟩ :=
    Settings.sectionOf_of_not_displaces hcontents Settings.defaults_composer h.composer
  rw [hcontents] at hfound
  obtain ⟨loaded, hload, hlogs⟩ := hready.load_of_found hfound
  obtain ⟨mid, hmid, hrun⟩ := render_of_load part
    (explicitly score given style rate gap tempo tuning) input hload (hready.of_logs hlogs)
    (hfound.of_logs hlogs) (styleFor_name style _) hrate rfl
  rw [renderedGiven_explicitly hinner] at hrun
  exact ⟨mid, hlogs.trans hmid, hrun⟩

theorem rateFor_zero (members : Members) :
    rateFor (some 0) (Settings.sectionOf members Settings.renderSection) =
      Settings.rateOf members := by
  rw [rateFor, if_pos rfl, Settings.rateOf]

/-- The rate in force is that of the arguments, unless this is zero. -/
theorem exists_rateFor {bytes : List UInt8} {first : Members}
    (h : Settings.HasSections s.nesting bytes first) (rate : ℤ) :
    ∃ rateValue, rateFor (some rate)
      (Settings.sectionOf (Settings.overlaid first) Settings.renderSection) = .ok rateValue := by
  have hcontents := Settings.contentsOf_of_isObjectText h.isObjectText
  obtain ⟨inner, hinner⟩ :=
    Settings.sectionOf_of_not_displaces hcontents Settings.defaults_render h.render
  by_cases hzero : rate = 0
  · rw [hzero, rateFor_zero, Settings.rateOf, hinner]
    exact ⟨_, rfl⟩
  · exact ⟨_, rateFor_of_ne_zero hzero _⟩

theorem scoreOf_explicitly {input otherInput : List Char}
    (h : score ≠ [] ∨ otherInput = input) :
    scoreOf (explicitly score given style rate gap tempo tuning).toScoreOptions otherInput =
      scoreOf (explicitly score given style rate gap tempo tuning).toScoreOptions input := by
  rcases h with hscore | rfl
  · obtain ⟨c, rest, rfl⟩ := List.exists_cons_of_ne_nil hscore
    rfl
  · rfl

theorem rateFor_of_rateOf {other : Members}
    (h : rate ≠ 0 ∨ Settings.rateOf other = Settings.rateOf members) :
    rateFor (some rate) (Settings.sectionOf other Settings.renderSection) =
      rateFor (some rate) (Settings.sectionOf members Settings.renderSection) := by
  by_cases hzero : rate = 0
  · have hsame := h.resolve_left (not_not.mpr hzero)
    rw [hzero, rateFor_zero, rateFor_zero, hsame]
  · rw [rateFor_of_ne_zero hzero, rateFor_of_ne_zero hzero]

theorem render_endAlike (part : String) {bytes otherBytes : List UInt8} {first second : Members}
    {input otherInput : List Char} (hgiven : given ≠ [])
    (hdiffer : Settings.Differ s t bytes otherBytes)
    (hfirst : Settings.HasSections s.nesting bytes first)
    (hsecond : Settings.HasSections t.nesting otherBytes second)
    (hscore : score ≠ [] ∨ otherInput = input)
    (hrate : rate ≠ 0 ∨
      Settings.rateOf (Settings.overlaid second) = Settings.rateOf (Settings.overlaid first)) :
    EndAlike (.ofChars given) s t
      ((render part (explicitly score given style rate gap tempo tuning) input).perform s)
      ((render part (explicitly score given style rate gap tempo tuning) otherInput).perform
        t) := by
  obtain ⟨place, halike⟩ := Alike.of_differ hdiffer
  obtain ⟨rateValue, hvalue⟩ := exists_rateFor hfirst rate
  have hotherValue := (rateFor_of_rateOf hrate).trans hvalue
  obtain ⟨mid, hlogs, hrun⟩ := render_explicitly part score given style gap tempo tuning input
    hdiffer.ready hdiffer.found hfirst hvalue
  obtain ⟨otherMid, hotherLogs, hotherRun⟩ := render_explicitly part score given style gap tempo
    tuning otherInput hdiffer.isReady_other hdiffer.found_other hsecond hotherValue
  rw [scoreOf_explicitly hscore] at hotherRun
  rw [hrun, hotherRun]
  exact ((halike.of_logs hlogs hotherLogs).endAlike_of_conclude part hgiven _ _ _).of_logs hlogs
    hotherLogs

/-- Two runs with the same arguments, among them one for each setting, agree although they differ in
the input, in the file of the settings and in the variables of the composer, unless the score is
empty and the inputs are different, or the rate is zero and the rates of the settings are
different. -/
theorem explicit_arguments_decide (part : String) {argv : List Argument} {verbose : Bool}
    {bytes otherBytes : List UInt8} {first second : Members} {input otherInput : List Char}
    (hcalls : Calls Grammars.renderTopic Grammars.render {} argv verbose
      (explicitly score given style rate gap tempo tuning))
    (hgiven : given ≠ []) (hdiffer : Settings.Differ s t bytes otherBytes)
    (hfirst : Settings.HasSections s.nesting bytes first)
    (hsecond : Settings.HasSections t.nesting otherBytes second)
    (hscore : score ≠ [] ∨ otherInput = input)
    (hrate : rate ≠ 0 ∨
      Settings.rateOf (Settings.overlaid second) = Settings.rateOf (Settings.overlaid first)) :
    EndAlike (.ofChars given) s t ((Commands.run part argv input).perform s)
      ((Commands.run part argv otherInput).perform t) := by
  rw [run_render hcalls, run_render hcalls]
  exact EndAlike.of_verbose
    (render_endAlike part hgiven (hdiffer.with_verbose verbose) hfirst hsecond hscore hrate)

/-- Settings with a rate and nothing else. -/
def rateSettings (rate : ℤ) : Members :=
  [Settings.named Settings.renderSection
    (.object [Settings.named Settings.rateName (.int rate)])]

/-- The text of settings with a rate. -/
def rateBytes (rate : ℤ) : List UInt8 :=
  Text.Utf8.encode (Json.print .line 0 (.object (rateSettings rate)))

theorem hasSections_rateBytes (rate : ℤ) (h : isWritable rate = true) :
    Settings.HasSections .usual (rateBytes rate) (rateSettings rate) := by
  have hreadable : Json.IsReadable .usual 0 (.object (rateSettings rate)) := by
    refine .object (by decide) (List.forall_mem_singleton.mpr (Text.Points.isJoined_ofChars _))
      (List.nodup_singleton _) ?_
    simp only [rateSettings, Settings.named, List.forall_mem_cons, List.not_mem_nil, false_imp_iff,
      implies_true, and_true]
    refine .object (by decide) (List.forall_mem_singleton.mpr (Text.Points.isJoined_ofChars _))
      (List.nodup_singleton _) ?_
    simp only [List.forall_mem_cons, List.not_mem_nil, false_imp_iff, implies_true, and_true]
    exact .int h
  have hobject : Settings.IsObjectText .usual (rateBytes rate) (rateSettings rate) :=
    Settings.isObjectText_print hreadable .line
  refine ⟨hobject, ?_, ?_⟩
  · intro value hvalue
    obtain ⟨hget, _⟩ := (Settings.displaces_iff hobject).mp hvalue
    rw [rateSettings, Settings.named, Members.get?_cons, if_neg (by decide)] at hget
    cases hget
  · intro value hvalue
    obtain ⟨hget, hne⟩ := (Settings.displaces_iff hobject).mp hvalue
    rw [rateSettings, Settings.named, Members.get?_cons, if_pos rfl] at hget
    cases hget
    exact hne _ rfl

theorem rateOf_rateSettings (rate : ℤ) :
    Settings.rateOf (Settings.overlaid (rateSettings rate)) = .ok (.int rate) := by
  rfl

/-- A session with other bytes in the file of the settings and a tempo in its variable. -/
def sessionAtTempo (bytes : List UInt8) (tempo : List Char) : Session :=
  { Settings.sessionWith bytes with
    environment := (Settings.tempoVariable, tempo) :: (Settings.sessionWith bytes).environment }

theorem write_sessionWith (bytes otherBytes : List UInt8) :
    (Settings.sessionWith bytes).files.write (Settings.sessionWith bytes).current
      (Places.settingsFile (Settings.sessionWith bytes).environment) otherBytes =
        .ok (Settings.sessionWith otherBytes).files := rfl

theorem differ_sessionAtTempo (bytes otherBytes : List UInt8) (tempo : List Char) :
    Settings.Differ (Settings.sessionWith bytes) (sessionAtTempo otherBytes tempo) bytes
      otherBytes where
  ready := Settings.isReady_sessionWith bytes
  read := Settings.read_sessionWith bytes
  read_other := Settings.read_sessionWith otherBytes
  elsewhere := by
    intro place hplace
    obtain ⟨found, hfound, _⟩ := Node.write_eq_ok_iff.mp (write_sessionWith bytes otherBytes)
    refine (Node.kindAt?_of_write rfl (write_sessionWith bytes otherBytes) hfound place).trans ?_
    refine if_neg ?_
    rintro rfl
    exact hplace hfound
  current := rfl
  output := rfl
  get?_eq := fun _ htempo _ => if_neg (Ne.symm htempo)

/-- A quarter note is rendered in the same way whatever rate the settings have, whatever tempo is in
the variable and whatever the input is. -/
theorem explicit_arguments_decide_quarter :
    Settings.Differ (Settings.sessionWith (rateBytes 44100))
        (sessionAtTempo (rateBytes 16000) "90".toList) (rateBytes 44100) (rateBytes 16000) ∧
      Settings.HasSections .usual (rateBytes 44100) (rateSettings 44100) ∧
      Settings.HasSections .usual (rateBytes 16000) (rateSettings 16000) ∧
      EndAlike (.ofChars "out.wav".toList) (Settings.sessionWith (rateBytes 44100))
        (sessionAtTempo (rateBytes 16000) "90".toList)
        ((run Commands.part renderQuarter "8a4".toList).perform
          (Settings.sessionWith (rateBytes 44100)))
        ((run Commands.part renderQuarter "2a4".toList).perform
          (sessionAtTempo (rateBytes 16000) "90".toList)) := by
  have hdiffer := differ_sessionAtTempo (rateBytes 44100) (rateBytes 16000) "90".toList
  have hfirst := hasSections_rateBytes 44100 (by decide +kernel)
  have hsecond := hasSections_rateBytes 16000 (by decide +kernel)
  exact ⟨hdiffer, hfirst, hsecond, explicit_arguments_decide Commands.part calls_renderQuarter
    (by decide) hdiffer hfirst hsecond (Or.inl (by decide)) (Or.inl (by decide))⟩

/-! ## The two exceptions -/

/-- What compiles to some tones is rendered, and its file declares the rate in force. -/
theorem render_explicitly_of_compile {bytes : List UInt8} {first : Members} {inForce gap : ℕ}
    {composer : Composer} {tones : List Tone} {opened : Files.Node} (part : String)
    (score given : Argument) (style : Style) (input : List Char) (hready : Settings.IsReady s)
    (hfound : Settings.Found s (Settings.contentsOf s.nesting bytes))
    (h : Settings.HasSections s.nesting bytes first)
    (hrate : rateFor (some rate)
      (Settings.sectionOf (Settings.overlaid first) Settings.renderSection) = .ok (.int inForce))
    (hpos : 1 ≤ inForce) (hlimit : 2 * inForce < wordLimit)
    (hmake : Composer.make (.int tempo) (.int tuning) = .ok composer)
    (hcompile : composer.compile
      (scoreOf (explicitly score given style rate gap tempo tuning).toScoreOptions input) =
        .ok tones) (hne : tones ≠ [])
    (hsize : 36 + 2 * (tones.map fun t => samplesIn inForce t.duration).sum < wordLimit)
    (hgiven : given ≠ []) (hpath : Action.IsPath (.ofChars given))
    (hopen : s.files.write s.current (.ofChars given) [] = .ok opened) :
    ∃ after samples file,
      (render part (explicitly score given style rate gap tempo tuning) input).perform s =
        (.ok success, after) ∧
      after.files.read s.current (.ofChars given) = .ok file ∧
      Declares file inForce (pcmBytes (quantiseAll samples)) := by
  obtain ⟨samples, hsamples, hlength⟩ :=
    exists_samples_of_isCompiled (Composer.isCompiled_of_compile hcompile) hpos hlimit style gap
  have hrendered : renderedExplicitly tempo tuning
      (scoreOf (explicitly score given style rate gap tempo tuning).toScoreOptions input)
      (.int inForce) (.ofString style.name) (.int gap) = .ok (tones, samples) := by
    rw [renderedExplicitly, hmake]
    show (composer.compile _ >>= _) = _
    rw [hcompile]
    show (renderTones tones _ _ _ >>= _) = _
    rw [hsamples]
    rfl
  have hbytes : 36 + 2 * (quantiseAll samples).length < wordLimit := by
    rw [length_quantiseAll, hlength]
    exact hsize
  obtain ⟨mid, hlogs, hrun⟩ := render_explicitly part score given style gap tempo tuning input
    hready hfound h hrate
  rw [hrendered] at hrun
  have hopen' : mid.files.write mid.current (.ofChars given) [] = .ok opened := by
    rw [hlogs.files_eq, hlogs.current_eq, hopen]
  obtain ⟨written, after, hwrite, hwritten, hafter⟩ :=
    writeOut_of_wav part (.ofString style.name) tones hpath hopen' (wav_natCast hlimit hbytes)
  have hdeliver : conclude part given (.int inForce) (.ofString style.name) (.ok (tones, samples))
      mid = (writeOut part (.int inForce) (.ofString style.name) (.ofChars given) tones
        samples).perform mid := by
    rw [conclude, deliver_of_ne_nil hgiven hne]
  refine ⟨after, samples, _, hrun.trans (hdeliver.trans hwritten), ?_,
    declares_wavFile hlimit hbytes⟩
  rw [hafter.files_eq, ← hlogs.current_eq]
  exact Node.read_of_write hwrite

/-- The arguments that render an empty score. -/
def renderNothing : List Argument :=
  ["render", "", "--bpm", "120", "--a4", "440", "--sample-rate", "8000", "--style", "square",
    "--gap-ms", "20", "-o", "out.wav"].map String.toList

/-- The arguments that render a quarter note at a rate of zero. -/
def renderAtZero : List Argument :=
  ["render", "4c4", "--bpm", "120", "--a4", "440", "--sample-rate", "0", "--style", "square",
    "--gap-ms", "20", "-o", "out.wav"].map String.toList

theorem calls_renderNothing : Calls Grammars.renderTopic Grammars.render {} renderNothing false
    (explicitly [] "out.wav".toList .square 8000 20 120 440) :=
  ⟨_, by cbv, by cbv⟩

theorem calls_renderAtZero : Calls Grammars.renderTopic Grammars.render {} renderAtZero false
    (explicitly "4c4".toList "out.wav".toList .square 0 20 120 440) :=
  ⟨_, by cbv, by cbv⟩

/-- A quarter note is rendered at the rate in force, be it from the arguments or from the input. -/
theorem render_explicitly_quarter {bytes : List UInt8} {first : Members} {opened : Files.Node}
    (score : Argument) (input : List Char) (inForce : ℕ) (hready : Settings.IsReady s)
    (hfound : Settings.Found s (Settings.contentsOf s.nesting bytes))
    (h : Settings.HasSections s.nesting bytes first)
    (hrate : rateFor (some rate)
      (Settings.sectionOf (Settings.overlaid first) Settings.renderSection) = .ok (.int inForce))
    (hpos : 1 ≤ inForce) (hlimit : 2 * inForce < wordLimit)
    (hscore : scoreOf (explicitly score "out.wav".toList .square rate 20 120 440).toScoreOptions
      input = "4c4".toList)
    (hopen : s.files.write s.current (.ofChars "out.wav".toList) [] = .ok opened) :
    ∃ after samples file, (render Commands.part
        (explicitly score "out.wav".toList .square rate 20 120 440) input).perform s =
          (.ok success, after) ∧
      after.files.read s.current (.ofChars "out.wav".toList) = .ok file ∧
      Declares file inForce (pcmBytes (quantiseAll samples)) := by
  have hsize : 36 + 2 * samplesIn inForce 500 < wordLimit := by
    have hword : wordLimit = 2 ^ 32 := rfl
    rw [samplesIn]
    omega
  have hcompile := compile_quarter
  rw [← hscore] at hcompile
  exact render_explicitly_of_compile Commands.part score _ .square input hready hfound h hrate hpos
    hlimit rfl hcompile (List.cons_ne_nil _ _) hsize (by decide) rfl hopen

theorem run_render_of_not_verbose {argv : List Argument} {options : RenderOptions}
    (hcalls : Calls Grammars.renderTopic Grammars.render {} argv false options)
    (hverbose : s.verbose = false) (part : String) (input : List Char) :
    (run part argv input).perform s = (render part options input).perform s := by
  have hsame : { s with verbose := false } = s := by rw [← hverbose]
  rw [run_render hcalls, hsame]

/-- With an empty score it is the input that is rendered. -/
theorem not_endAlike_renderNothing {bytes otherBytes : List UInt8} {first second : Members}
    (tempo : List Char) (hfirst : Settings.HasSections .usual bytes first)
    (hsecond : Settings.HasSections .usual otherBytes second) :
    ¬ EndAlike (.ofChars "out.wav".toList) (Settings.sessionWith bytes)
      (sessionAtTempo otherBytes tempo)
      ((run Commands.part renderNothing []).perform (Settings.sessionWith bytes))
      ((run Commands.part renderNothing "4c4".toList).perform
        (sessionAtTempo otherBytes tempo)) := by
  have hdiffer := differ_sessionAtTempo bytes otherBytes tempo
  have hrate : (8000 : ℤ) ≠ 0 := by decide
  obtain ⟨mid, _, hrun⟩ := render_explicitly Commands.part [] "out.wav".toList .square 20 120 440
    [] hdiffer.ready hdiffer.found hfirst (rateFor_of_ne_zero hrate _)
  obtain ⟨_, hfail, _⟩ := deliver_nil Commands.part (some "out.wav".toList) (.int 8000)
    (.ofString Style.square.name) [] mid
  obtain ⟨_, _, _, hotherRun, _⟩ := render_explicitly_quarter [] "4c4".toList 8000
    hdiffer.isReady_other hdiffer.found_other hsecond (rateFor_of_ne_zero hrate _) (by decide)
    (by decide) rfl rfl
  have hcodes : (.ok success : Except Fault ℕ) ≠ .ok failure := nofun
  rw [run_render_of_not_verbose calls_renderNothing rfl,
    run_render_of_not_verbose calls_renderNothing rfl, hotherRun]
  intro halike
  exact hcodes (halike.outcome.trans (congrArg Prod.fst (hrun.trans hfail)))

/-- With a rate of zero it is the rate of the settings that the file declares. -/
theorem not_endAlike_renderAtZero {bytes otherBytes : List UInt8} {first second : Members}
    {inForce otherInForce : ℕ} (tempo : List Char)
    (hfirst : Settings.HasSections .usual bytes first)
    (hsecond : Settings.HasSections .usual otherBytes second)
    (hrate : Settings.rateOf (Settings.overlaid first) = .ok (.int inForce))
    (hotherRate : Settings.rateOf (Settings.overlaid second) = .ok (.int otherInForce))
    (hpos : 1 ≤ inForce) (hlimit : 2 * inForce < wordLimit) (hotherPos : 1 ≤ otherInForce)
    (hotherLimit : 2 * otherInForce < wordLimit) (hne : inForce ≠ otherInForce) :
    ¬ EndAlike (.ofChars "out.wav".toList) (Settings.sessionWith bytes)
      (sessionAtTempo otherBytes tempo)
      ((run Commands.part renderAtZero []).perform (Settings.sessionWith bytes))
      ((run Commands.part renderAtZero []).perform (sessionAtTempo otherBytes tempo)) := by
  have hdiffer := differ_sessionAtTempo bytes otherBytes tempo
  obtain ⟨after, samples, file, hrun, hread, hdeclares⟩ := render_explicitly_quarter
    "4c4".toList [] inForce hdiffer.ready hdiffer.found hfirst ((rateFor_zero _).trans hrate) hpos
    hlimit rfl rfl
  obtain ⟨otherAfter, otherSamples, otherFile, hotherRun, hotherRead, hotherDeclares⟩ :=
    render_explicitly_quarter "4c4".toList [] otherInForce hdiffer.isReady_other
      hdiffer.found_other hsecond ((rateFor_zero _).trans hotherRate) hotherPos hotherLimit rfl rfl
  rw [run_render_of_not_verbose calls_renderAtZero rfl,
    run_render_of_not_verbose calls_renderAtZero rfl, hrun, hotherRun]
  intro halike
  rcases halike.file with hsame | ⟨hpath, _⟩
  · have hfile : otherFile = file := Except.ok.inj (hotherRead.symm.trans (hsame.trans hread))
    have hdeclared := hotherDeclares.rate_eq
    rw [hfile, hdeclares.rate_eq] at hdeclared
    exact hne hdeclared
  · cases hpath

/-- Runs with the same arguments, among them one for each setting, need not agree where the score is
empty or the rate is zero. -/
theorem explicit_arguments_exceptions :
    Settings.Differ (Settings.sessionWith (rateBytes 8000))
        (sessionAtTempo (rateBytes 16000) "90".toList) (rateBytes 8000) (rateBytes 16000) ∧
      Settings.HasSections .usual (rateBytes 8000) (rateSettings 8000) ∧
      Settings.HasSections .usual (rateBytes 16000) (rateSettings 16000) ∧
      (Calls Grammars.renderTopic Grammars.render {} renderNothing false
          (explicitly [] "out.wav".toList .square 8000 20 120 440) ∧
        ¬ EndAlike (.ofChars "out.wav".toList) (Settings.sessionWith (rateBytes 8000))
          (sessionAtTempo (rateBytes 16000) "90".toList)
          ((run Commands.part renderNothing []).perform (Settings.sessionWith (rateBytes 8000)))
          ((run Commands.part renderNothing "4c4".toList).perform
            (sessionAtTempo (rateBytes 16000) "90".toList))) ∧
      Calls Grammars.renderTopic Grammars.render {} renderAtZero false
          (explicitly "4c4".toList "out.wav".toList .square 0 20 120 440) ∧
        ¬ EndAlike (.ofChars "out.wav".toList) (Settings.sessionWith (rateBytes 8000))
          (sessionAtTempo (rateBytes 16000) "90".toList)
          ((run Commands.part renderAtZero []).perform (Settings.sessionWith (rateBytes 8000)))
          ((run Commands.part renderAtZero []).perform
            (sessionAtTempo (rateBytes 16000) "90".toList)) := by
  have hfirst := hasSections_rateBytes 8000 (by decide +kernel)
  have hsecond := hasSections_rateBytes 16000 (by decide +kernel)
  refine ⟨differ_sessionAtTempo _ _ _, hfirst, hsecond, ⟨calls_renderNothing, ?_⟩,
    calls_renderAtZero, ?_⟩
  · exact not_endAlike_renderNothing "90".toList hfirst hsecond
  · exact not_endAlike_renderAtZero "90".toList hfirst hsecond (rateOf_rateSettings 8000)
      (rateOf_rateSettings 16000) (by decide) (by decide) (by decide) (by decide) (by decide)

end Commands

end Ringtone
