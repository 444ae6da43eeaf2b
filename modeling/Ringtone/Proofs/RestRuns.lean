import Ringtone.Proofs.CommandLines
import Ringtone.Proofs.LengthOutcomes
import Ringtone.Proofs.SettingsInForce
import Ringtone.Proofs.Tokens

/-!
# Rests on the command line

A rest is as long as a note of its fraction at the same tempo. So wherever the tuning in force keeps
the frequency within the range of binary64 numbers, the length of a rest is printed exactly when the
note compiles to that length, and otherwise both are reported.
-/

namespace Ringtone

open CommandLine Number Text

/-! ## Settings that can be written -/

namespace Settings

variable {s : Session} {inner : Members}

/-- What the file gives the composer can be written. -/
theorem GivesComposer.isWritable (h : GivesComposer s inner) :
    (Value.object inner).isWritable = true := by
  cases h with
  | missing h => rfl
  | absent hread hobject h => rfl
  | object hread hobject h =>
    obtain ⟨text, _, htext⟩ := hobject
    exact Members.isWritable_of_get? (Json.isReadable_of_read htext).isWritable h

theorem isWritable_inForce {number : Option ℤ} {environment : Environment} {fallback : Value}
    (hnumber : ∀ n, number = some n → isWritable n = true)
    (hinner : (Value.object inner).isWritable = true) (hfallback : fallback.isWritable = true)
    (variableName name : String) :
    (inForce number environment inner variableName name fallback).isWritable = true := by
  unfold inForce Commands.orElse
  cases number with
  | some n => exact (Value.isWritable_int n).trans (hnumber n rfl)
  | none =>
    dsimp only
    cases hvariable : wholeIn environment variableName with
    | some n => exact isWritable_of_wholeIn hvariable
    | none =>
      dsimp only
      cases hget : inner.get? (Points.ofString name) with
      | none => exact hfallback
      | some value => exact Members.isWritable_of_get? hinner hget

end Settings

/-! ## Lengths of notes and of rests -/

variable {fraction tempo : Value} {result : Except Fault ℕ}

theorem NoteFault.RaisedAs.eq_note {levels : ℕ} {cause : NoteFault} {fault : Fault}
    (h : cause.RaisedAs levels fault) (hgiven : cause.given.obstacle? levels = none) :
    fault = .note cause := by
  obtain ⟨hdepths, hnumbers⟩ := Value.obstacle?_eq_none_iff.mp hgiven
  cases h with
  | told _ _ => rfl
  | long hpart _ hlong =>
    exact absurd ((Number.isWritable_iff _).mp (hnumbers _ _ hpart)) (not_le.mpr hlong)
  | deep hpart hdeep => exact absurd (hdepths _ _ hpart) (not_le.mpr hdeep)

theorem LengthOutcome.ok_or_note (h : LengthOutcome Value.levelLimit fraction tempo result)
    (hfraction : fraction.isWritable = true) (htempo : tempo.isWritable = true) :
    (∃ duration, result = .ok duration) ∨ ∃ cause, result = .error (.note cause) := by
  rw [Value.isWritable_iff] at hfraction htempo
  cases h with
  | fraction _ hfault => exact .inr ⟨_, congrArg Except.error (hfault.eq_note hfraction)⟩
  | tempo _ _ hfault => exact .inr ⟨_, congrArg Except.error (hfault.eq_note htempo)⟩
  | largeTempo _ _ _ hfault => exact .inr ⟨_, congrArg Except.error (hfault.eq_note htempo)⟩
  | largeFraction _ _ _ _ _ hfault =>
    exact .inr ⟨_, congrArg Except.error (hfault.eq_note hfraction)⟩
  | length => exact .inl ⟨_, rfl⟩

/-- Where the tempo can be written, there are words for why a fraction has no length. -/
theorem durationOf_ok_or_note (fraction : Fraction)
    (hfraction : (Value.int fraction.parts).isWritable = true) (htempo : tempo.isWritable = true) :
    (∃ duration, durationOf (.int fraction.parts) tempo = .ok duration) ∨
      ∃ cause, durationOf (.int fraction.parts) tempo = .error (.note cause) := by
  by_cases hpositive : tempo.IsPositive
  · obtain ⟨beats, hbeats, rfl⟩ := hpositive
    have hduration := durationOf_natCast fraction ⟨beats, hbeats⟩
    rw [hduration]
    exact (noteLength_outcome _ fraction ⟨beats, hbeats⟩).ok_or_note hfraction htempo
  · rw [durationOf, durationWithin_of_tempo _ fraction hpositive]
    exact .inr ⟨_, congrArg Except.error (Fault.ofNote_of_isWritable htempo)⟩

/-- Only numbers within the range have a length. -/
theorem range_of_durationOf {fraction : Fraction} {duration : ℕ}
    (h : durationOf (.int fraction.parts) tempo = .ok duration) :
    fraction.parts < rangeLimit ∧
      ∃ beats : Tempo, tempo = .int beats.beats ∧ beats.beats < rangeLimit := by
  by_cases hpositive : tempo.IsPositive
  · obtain ⟨beats, hbeats, rfl⟩ := hpositive
    have hduration := durationOf_natCast fraction ⟨beats, hbeats⟩
    have houtcome := noteLength_outcome 0 fraction ⟨beats, hbeats⟩
    rw [← hduration, h] at houtcome
    cases houtcome with
    | length hparts _ hpartsLt htempo _ hbeatsLt _ =>
      cases hparts
      cases htempo
      exact ⟨hpartsLt, ⟨beats, hbeats⟩, rfl, hbeatsLt⟩
  · rw [durationOf, durationWithin_of_tempo _ fraction hpositive] at h
    cases h

namespace Note.IsWritten

variable {note : Note} {token : List Char} {tuning : ℕ}

theorem note_eq {other : Note} (h : note.IsWritten token) (hother : other.IsWritten token) :
    note = other :=
  Except.ok.inj ((parse_of_isWritten h).symm.trans (parse_of_isWritten hother))

theorem isWritable_parts (h : note.IsWritten token) :
    (Value.int note.fraction.parts).isWritable = true :=
  value_isWritable_iff.mpr h.parts_lt

/-- A tempo that a rest has a length at gives the note its tone. -/
theorem exists_tone (h : note.IsWritten token) (htuning : 0 < tuning)
    (hover : ¬ note.pitch.Overflows tuning) {duration : ℕ}
    (hduration : durationOf (.int note.fraction.parts) tempo = .ok duration) :
    ∃ tone : Tone, tone.duration = duration ∧
      (Composer.make tempo (.int tuning) >>= fun composer => composer.compile token) =
        .ok [tone] := by
  obtain ⟨hparts, beats, rfl, hbeats⟩ := range_of_durationOf hduration
  have hmake : Composer.make (.int beats.beats) (.int tuning) = .ok ⟨beats, tuning, htuning⟩ :=
    Composer.make_eq_ok_iff.mpr ⟨rfl, rfl⟩
  obtain ⟨tone, htone⟩ := Score.compileToken_of_within h htuning hover hbeats hparts
  have hsame := (Score.conversions_of_compileToken h htone).2
  refine ⟨tone, Except.ok.inj (hsame.symm.trans hduration), ?_⟩
  rw [hmake]
  show Composer.compile _ token = _
  rw [h.compile_eq, htone]
  rfl

/-- Where a rest has no length, there are words for why the note has no tone. -/
theorem exists_message (h : note.IsWritten token) (hover : ¬ note.pitch.Overflows tuning)
    (htempo : tempo.isWritable = true) {fault : Fault}
    (hduration : durationOf (.int note.fraction.parts) tempo = .error fault) :
    ∃ other message,
      (Composer.make tempo (.int tuning) >>= fun composer => composer.compile token) =
        .error other ∧ other.message? = some message := by
  cases hmake : Composer.make tempo (.int tuning) with
  | error other =>
    obtain ⟨message, hwords⟩ := Composer.exists_message_of_make (Value.fits_of_isWritable htempo)
      (Value.fits_int _) hmake
    exact ⟨other, message, rfl, hwords⟩
  | ok composer =>
    obtain ⟨rfl, hsame⟩ := Composer.make_eq_ok_iff.mp hmake
    obtain rfl : tuning = composer.tuning := by exact_mod_cast Value.int.inj hsame
    show ∃ other message, composer.compile token = _ ∧ _
    rw [h.compile_eq]
    cases htone : Score.compileToken composer.tempo composer.tuning token with
    | ok tone =>
      have hlength := (Score.conversions_of_compileToken h htone).2
      rw [hlength] at hduration
      cases hduration
    | error other =>
      have hrefused := (Score.refused_iff composer.tuning_pos).mp htone
      rcases hrefused.exists_message with ⟨message, hwords⟩ | ⟨again, hwritten, hbeyond, _⟩
      · exact ⟨other, message, rfl, hwords⟩
      · rw [← h.note_eq hwritten] at hbeyond
        exact absurd hbeyond hover

end Note.IsWritten

namespace Commands

variable {s mid : Session}

/-! ## The two runs -/

/-- One run prints a length exactly when the other prints a tone of that length, and when no length
is printed both end with a message. -/
structure AgreeOnLength (s : Session) (restRun compileRun : Except Fault Nat × Session) : Prop where
  prints_iff : ∀ duration : ℕ, Prints s restRun (numeral duration) ↔
    ∃ frequency : ℤ, Prints s compileRun (toneLine ⟨frequency, duration⟩)
  reports : (∀ duration : ℕ, ¬ Prints s restRun (numeral duration)) →
    ReportsError s restRun ∧ ReportsError s compileRun

section Agreeing

variable {restRun compileRun : Except Fault Nat × Session}

theorem agreeOnLength_of_prints {tone : Tone} (hrest : Prints s restRun (numeral tone.duration))
    (hcompile : Prints s compileRun (toneLine tone)) : AgreeOnLength s restRun compileRun := by
  refine ⟨fun duration => ⟨fun h => ?_, ?_⟩, fun h => absurd hrest (h _)⟩
  · have hsame : tone.duration = duration := by
      exact_mod_cast numeral_injective (hrest.line_eq h)
    rw [← hsame]
    exact ⟨tone.frequency, hcompile⟩
  · rintro ⟨frequency, h⟩
    have hsame := toneLine_injective (hcompile.line_eq h)
    rw [hsame] at hrest
    exact hrest

theorem agreeOnLength_of_reports (hrest : ReportsError s restRun)
    (hcompile : ReportsError s compileRun) : AgreeOnLength s restRun compileRun := by
  refine ⟨fun duration => ⟨fun h => absurd h (hrest.not_prints _), ?_⟩, fun _ => ⟨hrest, hcompile⟩⟩
  rintro ⟨frequency, h⟩
  exact absurd h (hcompile.not_prints _)

end Agreeing

theorem restAt_of_ok {tempo : Value} {fraction : ℤ} {duration : ℕ} (hreports : s.Reports mid)
    (h : durationOf (.int fraction) tempo = .ok duration) :
    Prints s ((restAt tempo fraction).perform mid) (numeral duration) := by
  rw [restAt, h, reporting_of_ok (Action.perform_ofExcept _ mid), Prints, ← hreports.output_eq]
  exact ⟨rfl, rfl⟩

theorem restAt_of_note {tempo : Value} {fraction : ℤ} {cause : NoteFault}
    (hreports : s.Reports mid) (h : durationOf (.int fraction) tempo = .error (.note cause)) :
    ReportsError s ((restAt tempo fraction).perform mid) := by
  rw [restAt, h]
  exact reportsError_of_message (Action.perform_ofExcept _ mid) rfl hreports

theorem tonesAt_perform (tempo tuning : Value) (score : List Char) (s : Session) :
    ∃ after, (tonesAt tempo tuning score).perform s =
      ((Composer.make tempo tuning >>= fun composer => composer.compile score), after) ∧
        s.Logs after :=
  Action.exists_perform_bind (Action.exists_perform_ofExcept _ s) fun composer mid =>
    compileScore_perform composer score mid

section Compiling

variable {options : CompileOptions} {input : List Char} {tempo tuning : Value}
  (hreports : s.Reports mid)
include hreports

theorem compileAt_of_tone {tone : Tone} (hjson : options.json = false)
    (h : (Composer.make tempo tuning >>= fun composer =>
      composer.compile (scoreOf options.toScoreOptions input)) = .ok [tone]) :
    Prints s ((compileAt tempo tuning options input).perform mid) (toneLine tone) := by
  obtain ⟨after, htones, hlogs⟩ :=
    tonesAt_perform tempo tuning (scoreOf options.toScoreOptions input) mid
  rw [h] at htones
  rw [compileAt, reporting_of_ok htones, printTones, if_neg (by rw [hjson]; decide),
    Action.perform_bind_of_ok (forM_say_perform [tone] after), Action.perform_pure, Prints,
    ← hreports.output_eq, ← hlogs.output_eq]
  exact ⟨rfl, by simp [unlines, String.append_assoc]⟩

theorem compileAt_of_message {fault : Fault} {message : String}
    (h : (Composer.make tempo tuning >>= fun composer =>
      composer.compile (scoreOf options.toScoreOptions input)) = .error fault)
    (hwords : fault.message? = some message) :
    ReportsError s ((compileAt tempo tuning options input).perform mid) := by
  obtain ⟨after, htones, hlogs⟩ :=
    tonesAt_perform tempo tuning (scoreOf options.toScoreOptions input) mid
  rw [h] at htones
  exact reportsError_of_message htones hwords (hreports.trans hlogs.reports)

end Compiling

/-! ## Settings, rests and notes together -/

/-- A rest of the fraction of a note and the note agree on the length, however the two are called
with one tempo and whatever the settings are, as long as the tuning in force keeps the frequency
within the range. So do a rest of some digits and those digits before an A. -/
structure RestsLikeNotes (s : Session) (verbose : Bool) (inner : Members) : Prop where
  calls : ∀ {note : Note} {token : List Char}, note.IsWritten token →
    ∀ {arguments others : List Argument} {tempo tuning : Option ℤ},
    Calls Grammars.restTopic Grammars.rest {} arguments verbose
      { fraction := note.fraction.parts, tempo } →
    Calls Grammars.compileTopic Grammars.compile {} others verbose
      { score := some token, tempo, tuning } →
    ∀ {n : ℕ}, 0 < n → ¬ note.pitch.Overflows n →
    Settings.tuningOver tuning s.environment inner = .int n → ∀ part input,
      AgreeOnLength s ((run part arguments input).perform s) ((run part others input).perform s)
  digits : ∀ {digits : List Char}, (∀ c ∈ digits, isAsciiDigit c) → digits.length ≤ numeralLimit →
    0 < ofDecimalDigits digits → ∀ {tempo tuning : Option ℤ},
    (∀ n, tempo = some n → isWritable n = true) → (∀ n, tuning = some n → isWritable n = true) →
    ∀ {n : ℕ}, 0 < n → n ≤ 2 ^ 1000 →
    Settings.tuningOver tuning s.environment inner = .int n → ∀ part input,
      AgreeOnLength s
        ((run part (loud verbose ++ "rest".toList :: digits :: given "--bpm".toList tempo)
          input).perform s)
        ((run part (loud verbose ++ "compile".toList :: (digits ++ "a4".toList) ::
          (given "--bpm".toList tempo ++ given "--a4".toList tuning)) input).perform s)

section Together

variable {verbose : Bool} {inner : Members}

theorem Settled.reports_from (h : Settled { s with verbose } mid) : s.Reports mid :=
  ⟨h.reports.output_eq, h.reports.exists_lines⟩

/-- The tempo in force of a rest that is called can be written. -/
theorem isWritable_tempoOver {arguments : List Argument} {options : RestOptions}
    (h : Calls Grammars.restTopic Grammars.rest {} arguments verbose options)
    (hinner : (Value.object inner).isWritable = true) (environment : Environment) :
    (Settings.tempoOver options.tempo environment inner).isWritable = true := by
  obtain ⟨own, _, hread⟩ := h
  have hnumber := Grammar.read_keeps rest_keeps (by rintro _ ⟨⟩) hread
  exact Settings.isWritable_inForce hnumber hinner (by decide +kernel) _ _

theorem agreeOnLength_of_calls (hruns : RunsOver s verbose inner)
    (hinner : (Value.object inner).isWritable = true) {note : Note} {token : List Char}
    (hnote : note.IsWritten token) {arguments others : List Argument} {tempo tuning : Option ℤ}
    (hrest : Calls Grammars.restTopic Grammars.rest {} arguments verbose
      { fraction := note.fraction.parts, tempo })
    (hcompile : Calls Grammars.compileTopic Grammars.compile {} others verbose
      { score := some token, tempo, tuning })
    {n : ℕ} (hn : 0 < n) (hover : ¬ note.pitch.Overflows n)
    (htuning : Settings.tuningOver tuning s.environment inner = .int n) (part : String)
    (input : List Char) :
    AgreeOnLength s ((run part arguments input).perform s)
      ((run part others input).perform s) := by
  obtain ⟨mid, hsettled, hperform⟩ := hruns.rest hrest part input
  obtain ⟨other, hother, hcompiled⟩ := hruns.compile hcompile part input
  have hscore : scoreOf { score := some token, tempo, tuning } input = token := by
    obtain ⟨c, rest, rfl⟩ := List.exists_cons_of_ne_nil hnote.ne_nil
    rfl
  have htempo := isWritable_tempoOver hrest hinner s.environment
  rw [hperform, hcompiled, htuning]
  rcases durationOf_ok_or_note note.fraction hnote.isWritable_parts htempo with
    ⟨duration, hduration⟩ | ⟨cause, hcause⟩
  · obtain ⟨tone, rfl, htone⟩ := hnote.exists_tone hn hover hduration
    rw [← hscore] at htone
    exact agreeOnLength_of_prints (restAt_of_ok hsettled.reports_from hduration)
      (compileAt_of_tone hother.reports_from rfl htone)
  · obtain ⟨fault, message, hfault, hwords⟩ := hnote.exists_message hover htempo hcause
    rw [← hscore] at hfault
    exact agreeOnLength_of_reports (restAt_of_note hsettled.reports_from hcause)
      (compileAt_of_message hother.reports_from hfault hwords)

theorem restsLikeNotes_of_runs (hruns : RunsOver s verbose inner)
    (hinner : (Value.object inner).isWritable = true) : RestsLikeNotes s verbose inner := by
  refine ⟨agreeOnLength_of_calls hruns hinner, ?_⟩
  intro digits hdigits hlength hpos tempo tuning htempo hwritable n hn hle htuning part input
  have hne : digits ≠ [] := by
    rintro rfl
    exact absurd hpos (by decide)
  have hhead : (digits ++ "a4".toList).head? ≠ some '-' := by
    obtain ⟨c, rest, rfl⟩ := List.exists_cons_of_ne_nil hne
    rintro ⟨⟩
    exact absurd (hdigits _ List.mem_cons_self) (by decide)
  have hnote : Note.IsWritten ⟨⟨_, hpos⟩, ⟨4, .a⟩⟩ (digits ++ "a4".toList) :=
    ⟨digits, ⟨rfl, hdigits, Pitch.not_isAsciiDigit_head?_key _⟩, hlength, rfl⟩
  exact agreeOnLength_of_calls hruns hinner hnote (calls_rest verbose hne hdigits hlength htempo)
    (calls_compile verbose hhead htempo hwritable) hn (Pitch.not_overflows _ hle) htuning part input

end Together

/-- All commands work with the settings in force, and a rest and a note of one fraction agree on the
length, wherever the directory of the settings can be had, there is room for the path of the file,
and none is found or it gives the composer nothing or an object. The tempo in force does not depend
on what is said of the tuning, nor the tuning on what is said of the tempo. Where loading the
settings comes to a fault of the files, as it does when there is no room for the path, the commands
that need them end in it; a frequency and a rest that are given their number do not need them. -/
theorem settings_layered (s : Session) (verbose : Bool) :
    (∀ made inner, (Action.ensureDirectory (Places.settingsDirectory s.environment)).perform
        { s with verbose } = (.ok (), made) → Settings.FileHasRoom s.environment →
      Settings.GivesComposer made inner →
        RunsOver s verbose inner ∧ RestsLikeNotes s verbose inner) ∧
    (∀ number environment other inner another,
      (Settings.AlikeBut Settings.tuningVariable Settings.tuningName environment other inner
          another → Settings.tempoOver number environment inner =
        Settings.tempoOver number other another) ∧
      (Settings.AlikeBut Settings.tempoVariable Settings.tempoName environment other inner
          another → Settings.tuningOver number environment inner =
        Settings.tuningOver number other another)) ∧
    (∀ fault stopped, Settings.load.perform { s with verbose } = (.error (.file fault), stopped) →
      StopsAt s verbose (.file fault)) ∧
    ∀ made, (Action.ensureDirectory (Places.settingsDirectory s.environment)).perform
        { s with verbose } = (.ok (), made) → ¬ Settings.FileHasRoom s.environment →
      ∃ fault, StopsAt s verbose (.file fault) := by
  refine ⟨fun made inner hmade hroom hgives => ?_, fun number environment other inner another => ?_,
    fun fault stopped h => stopsAt_of_load h, fun made => stopsAt_of_noRoom⟩
  · have hruns := runsOver_of_gives hmade hroom hgives
    exact ⟨hruns, restsLikeNotes_of_runs hruns hgives.isWritable⟩
  · exact ⟨fun h => Settings.tempoOver_of_alikeBut h number,
      fun h => Settings.tuningOver_of_alikeBut h number⟩

/-- A file that gives the composer a tempo. -/
def tempoBytes (tempo : Value) : List UInt8 :=
  Utf8.encode (Json.print .line 0 (.object
    [Settings.named Settings.composerSection
      (.object [Settings.named Settings.tempoName tempo])]))

theorem gives_tempoBytes {tempo : Value} (h : Json.IsReadable .usual 2 tempo) :
    Settings.GivesComposer (Settings.sessionWith (tempoBytes tempo))
      [Settings.named Settings.tempoName tempo] := by
  have hnamed : ∀ name value, (Settings.named name value).1.IsJoined :=
    fun _ _ => Points.isJoined_ofChars _
  have hinner : Json.IsReadable .usual 1 (.object [Settings.named Settings.tempoName tempo]) :=
    .object (by decide) (List.forall_mem_singleton.mpr (hnamed _ _)) (List.nodup_singleton _)
      (List.forall_mem_singleton.mpr h)
  have hreadable : Json.IsReadable .usual 0 (.object [Settings.named Settings.composerSection
      (.object [Settings.named Settings.tempoName tempo])]) :=
    .object (by decide) (List.forall_mem_singleton.mpr (hnamed _ _)) (List.nodup_singleton _)
      (List.forall_mem_singleton.mpr hinner)
  exact .object (Settings.read_sessionWith (tempoBytes tempo))
    (Settings.isObjectText_print hreadable .line) rfl

theorem fileHasRoom_sessionWith (bytes : List UInt8) :
    Settings.FileHasRoom (Settings.sessionWith bytes).environment := by
  show Settings.FileHasRoom Settings.freshSession.environment
  decide +kernel

theorem calls_settings :
    Calls Grammars.settingsTopic Grammars.settings () ["config".toList] false () :=
  ⟨_, by cbv, by cbv⟩

/-- The session where a file stands in the way of the directory of the settings. -/
def blockedSession : Session :=
  { Settings.freshSession with files := .directory [("nc".toList, .file [])] }

theorem exists_load_blockedSession : ∃ fault stopped,
    Settings.load.perform blockedSession = (.error (.file fault), stopped) := ⟨_, _, rfl⟩

/-- The tempo of a file is shown with the default tuning, and a rest of a quarter note and a quarter
note agree at it; where a file stands in the way, or there is no room for the path of the file,
there is nothing to show. -/
theorem settings_layered_tempo :
    let s := Settings.sessionWith (tempoBytes (.int 90))
    (((run part ["config".toList] []).perform s).1 = .ok success ∧
      ((run part ["config".toList] []).perform s).2.output = s.output ++
        unlines (settingsLines (Places.settingsFile s.environment) (.int 90) (.int 440))) ∧
    AgreeOnLength s ((run part ["rest".toList, "4".toList] []).perform s)
      ((run part ["compile".toList, "4a4".toList] []).perform s) ∧
    (∃ fault, ((run part ["config".toList] []).perform blockedSession).1 = .error (.file fault)) ∧
    ∃ fault,
      ((run part ["config".toList] []).perform Settings.deepSession).1 = .error (.file fault) := by
  intro s
  have hdigits : ∀ c ∈ ['4'], isAsciiDigit c := List.forall_mem_singleton.mpr rfl
  have hplain : ∀ n, IsPlain (.int n) := by
    rintro n _ ⟨⟩
  obtain ⟨fault, stopped, hload⟩ := exists_load_blockedSession
  obtain ⟨files, hmade⟩ := Settings.exists_made_deepSession
  obtain ⟨hruns, hrests⟩ := (settings_layered s false).1 s _ rfl (fileHasRoom_sessionWith _)
    (gives_tempoBytes (.int (by decide +kernel)))
  have hstops := (settings_layered blockedSession false).2.2.1 fault stopped hload
  obtain ⟨deepFault, hdeep⟩ := (settings_layered Settings.deepSession false).2.2.2 _ hmade
    Settings.not_fileHasRoom_deepSession
  have hnone : ∀ n, (none : Option ℤ) = some n → isWritable n = true := by simp
  have hagree := hrests.digits hdigits (by decide) (by decide) hnone hnone
    (by decide : 0 < 440) Pitch.concertTuning_le rfl part []
  exact ⟨(hruns.settings calls_settings part []).printed (hplain 90) (hplain 440), hagree,
    ⟨fault, hstops.settings calls_settings part []⟩, deepFault,
    hdeep.settings calls_settings part []⟩

/-- Where a file stands in the way of the directory of the settings, the length of a rest at a tempo
that is given is printed, and a note at the same tempo and under a tuning that is given ends in the
fault. -/
theorem rest_of_blocked_settings :
    Settings.GivesComposer blockedSession [] ∧
    Settings.tuningOver (some 440) blockedSession.environment [] = .int 440 ∧
    Prints blockedSession ((run part (["rest", "4", "--bpm", "120"].map String.toList) []).perform
      blockedSession) "500" ∧
    (∃ fault, ((run part (["compile", "4a4", "--bpm", "120", "--a4", "440"].map String.toList)
      []).perform blockedSession).1 = .error (.file fault)) ∧
    ¬ AgreeOnLength blockedSession
      ((run part (["rest", "4", "--bpm", "120"].map String.toList) []).perform blockedSession)
      ((run part (["compile", "4a4", "--bpm", "120", "--a4", "440"].map String.toList)
        []).perform blockedSession) := by
  have hrest : Calls Grammars.restTopic Grammars.rest {}
      (["rest", "4", "--bpm", "120"].map String.toList) false
        { fraction := 4, tempo := some 120 } := ⟨_, by cbv, by cbv⟩
  have hcompile : Calls Grammars.compileTopic Grammars.compile {}
      (["compile", "4a4", "--bpm", "120", "--a4", "440"].map String.toList) false
        { score := some "4a4".toList, tempo := some 120, tuning := some 440 } :=
    ⟨_, by cbv, by cbv⟩
  have hlength : durationOf (.int 4) (.int 120) = .ok 500 := eq_ok_of_toOption (by decide +kernel)
  obtain ⟨fault, stopped, hload⟩ := exists_load_blockedSession
  have hstops : StopsAt blockedSession false (.file fault) := stopsAt_of_load hload
  have hprints : Prints blockedSession ((run part (["rest", "4", "--bpm", "120"].map
      String.toList) []).perform blockedSession) (numeral (500 : ℕ)) := by
    rw [hstops.rest hrest part []]
    exact restAt_of_ok (.refl blockedSession) hlength
  have hfault := hstops.compile hcompile part []
  refine ⟨.missing (by rintro ⟨⟩), rfl, hprints, ⟨fault, hfault⟩, fun hagree => ?_⟩
  obtain ⟨frequency, hcompiled⟩ := (hagree.prints_iff 500).mp hprints
  rw [hcompiled.1] at hfault
  cases hfault

/-- Where the directory of the settings can be made in a place without room for the path of their
file, nothing is found there. -/
theorem exists_gives_deepSession :
    ∃ made, (Action.ensureDirectory
        (Places.settingsDirectory Settings.deepSession.environment)).perform
          Settings.deepSession = (.ok (), made) ∧ Settings.GivesComposer made [] := by
  obtain ⟨files, hmade⟩ := Settings.exists_made_deepSession
  obtain ⟨hready, henvironment⟩ := Settings.isReady_of_ensureDirectory hmade
  refine ⟨_, hmade, .missing ?_⟩
  obtain ⟨present, hpresent⟩ := hready.exists_isPresent
  rw [henvironment, if_neg Settings.not_fileHasRoom_deepSession] at hpresent
  rw [henvironment, hpresent]
  rintro ⟨⟩

/-- A text of one surrogate. -/
def surrogate : Value := .text [.ofNat 0xD800]

theorem not_isPlain_surrogate : ¬ IsPlain surrogate := by
  rw [isPlain_iff]
  intro hchars
  have hchar := hchars (.ofNat 0xD800) (List.mem_singleton.mpr rfl)
  cases hchar

/-- The settings are not in force everywhere: where a file stands in the way of their directory,
where there is no room for the path of their file though the directory can be made, and, for showing
them, where the tempo is a surrogate. -/
theorem settings_layered_exceptions :
    (Settings.GivesComposer blockedSession [] ∧
      ¬ AgreeOnLength blockedSession
        ((run part (["rest", "4", "--bpm", "120"].map String.toList) []).perform blockedSession)
        ((run part (["compile", "4a4", "--bpm", "120", "--a4", "440"].map String.toList)
          []).perform blockedSession)) ∧
    ((∃ made, (Action.ensureDirectory
          (Places.settingsDirectory Settings.deepSession.environment)).perform
            Settings.deepSession = (.ok (), made) ∧ Settings.GivesComposer made []) ∧
      ∃ fault,
        ((run part ["config".toList] []).perform Settings.deepSession).1 =
          .error (.file fault)) ∧
    ∃ place length point, Settings.GivesComposer (Settings.sessionWith (tempoBytes surrogate))
        [Settings.named Settings.tempoName surrogate] ∧
      ((run part ["config".toList] []).perform
        (Settings.sessionWith (tempoBytes surrogate))).1 =
          .error (.unencodable place length point) := by
  obtain ⟨hgives, _, _, _, hdiffer⟩ := rest_of_blocked_settings
  refine ⟨⟨hgives, hdiffer⟩, ⟨exists_gives_deepSession, ?_⟩, ?_⟩
  · obtain ⟨files, hmade⟩ := Settings.exists_made_deepSession
    have hstops : ∃ fault, StopsAt Settings.deepSession false (.file fault) :=
      stopsAt_of_noRoom hmade Settings.not_fileHasRoom_deepSession
    obtain ⟨fault, hstops⟩ := hstops
    exact ⟨fault, hstops.settings calls_settings part []⟩
  · have hgives : Settings.GivesComposer _ [Settings.named Settings.tempoName surrogate] :=
      gives_tempoBytes (.text (by decide))
    have hruns : RunsOver (Settings.sessionWith (tempoBytes surrogate)) false _ :=
      runsOver_of_gives rfl (fileHasRoom_sessionWith _) hgives
    have hshows := hruns.settings calls_settings part []
    obtain ⟨⟨place, length, point, hfault⟩, _⟩ := hshows.stopsAtTempo not_isPlain_surrogate
    exact ⟨place, length, point, hgives, hfault⟩

end Commands

end Ringtone
