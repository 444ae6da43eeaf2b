import Ringtone.Proofs.JsonRoundTrip
import Ringtone.Proofs.RenderRuns

/-!
# The two listings of tones

Compiling prints the tones in lines of two numerals or as one JSON array. From either the tones are
read back: the first blank of a line ends its first numeral, and the first line break of the text its
first line. Nothing is printed before all tokens are compiled, so that the two runs do not differ
when a token is bad.
-/

namespace Ringtone

open Number Text

/-! ## Readers -/

/-- The tone that a line tells: two numerals without a sign, and one blank between them. -/
def toneOfLine? (line : List Char) : Option Tone :=
  match line.splitOn ' ' with
  | [frequency, duration] => do return ⟨← readNat? frequency, ← readNat? duration⟩
  | _ => none

/-- The lines of a text in which each ends with a line break. -/
def linesOf (text : List Char) : List (List Char) := (text.splitOn '\n').dropLast

/-- The tones that the lines of a text tell. -/
def tonesOfLines? (text : String) : Option (List Tone) := (linesOf text.toList).mapM toneOfLine?

theorem splitOn_of_notMem {mark : Char} {text : List Char} (h : mark ∉ text) :
    text.splitOn mark = [text] :=
  List.splitOnP_eq_singleton fun _ hc => beq_eq_false_iff_ne.mpr (ne_of_mem_of_not_mem hc h)

theorem linesOf_append {line rest : List Char} (h : '\n' ∉ line) :
    linesOf (line ++ '\n' :: rest) = line :: linesOf rest := by
  have hne : rest.splitOn '\n' ≠ [] := List.splitOnP_ne_nil _ _
  rw [linesOf, List.splitOn_append_cons_self, splitOn_of_notMem h, List.singleton_append,
    List.dropLast_cons_of_ne_nil hne, linesOf]

/-! ## What is read back -/

namespace Tone.IsCompiled

variable {t : Tone}

theorem exists_frequency (h : t.IsCompiled) :
    ∃ n : ℕ, t.frequency = n ∧ isWritable n = true := by
  obtain ⟨n, hn⟩ := Int.eq_ofNat_of_zero_le h.frequency_nonneg
  have hlt : n < rangeLimit := by simpa [hn] using h.frequency_lt
  exact ⟨n, hn, isWritable_natCast_iff.mpr (hlt.trans_le rangeLimit_le_writableLimit)⟩

theorem isWritable_duration (h : t.IsCompiled) : isWritable t.duration = true := by
  refine isWritable_natCast_iff.mpr (h.duration_le.trans_lt ?_)
  calc longestLength < 10 ^ 6 := by norm_num [longestLength]
    _ ≤ writableLimit := pow_le_pow_right₀ (by norm_num) (by norm_num)

theorem toneOfLine?_toneLine (h : t.IsCompiled) :
    toneOfLine? (Commands.toneLine t).toList = some t := by
  obtain ⟨frequency, hfrequency, hwritable⟩ := h.exists_frequency
  have hblank := Commands.notMem_numeral (c := ' ') (by decide) (by decide)
  have hsplit : (Commands.toneLine t).toList.splitOn ' ' =
      [(numeral t.frequency).toList, (numeral t.duration).toList] := by
    rw [Commands.toList_toneLine, List.splitOn_append_cons_self, splitOn_of_notMem (hblank _),
      splitOn_of_notMem (hblank _)]
    rfl
  have hread := readNat?_numeral hwritable
  rw [← hfrequency] at hread
  rw [toneOfLine?, hsplit]
  dsimp only
  rw [hread, readNat?_numeral h.isWritable_duration]
  show some (Tone.mk (frequency : ℤ) t.duration) = some t
  rw [← hfrequency]

end Tone.IsCompiled

variable {tones : List Tone}

theorem tonesOfLines?_unlines (h : ∀ t ∈ tones, t.IsCompiled) :
    tonesOfLines? (unlines (tones.map Commands.toneLine)) = some tones := by
  induction tones with
  | nil => rfl
  | cons t rest ih =>
    obtain ⟨ht, hrest⟩ := List.forall_mem_cons.mp h
    have hlines : (unlines ((t :: rest).map Commands.toneLine)).toList =
        (Commands.toneLine t).toList ++ '\n' :: (unlines (rest.map Commands.toneLine)).toList := by
      simp [unlines]
    have hmore := ih hrest
    rw [tonesOfLines?] at hmore
    rw [tonesOfLines?, hlines, linesOf_append (Commands.newline_notMem_toneLine t), List.mapM_cons,
      ht.toneOfLine?_toneLine, hmore]
    rfl

theorem isReadable_tones (h : ∀ t ∈ tones, t.IsCompiled) :
    Json.IsReadable .usual 0 (.list (tones.map Sound.toneValue)) := by
  refine .list (by decide) fun item hitem => ?_
  obtain ⟨t, ht, rfl⟩ := List.mem_map.mp hitem
  obtain ⟨frequency, hfrequency, hwritable⟩ := (h t ht).exists_frequency
  rw [← hfrequency] at hwritable
  refine .list (by decide) fun number hnumber => ?_
  rcases List.mem_pair.mp hnumber with rfl | rfl
  · exact .int hwritable
  · exact .int (h t ht).isWritable_duration

/-- The array that is printed has the tones as its value, also with the line break behind it. -/
theorem read_line_tones (h : ∀ t ∈ tones, t.IsCompiled) :
    Json.read (Json.line (.list (tones.map Sound.toneValue)) ++ "\n").toList =
      .ok (.list (tones.map Sound.toneValue)) := by
  have hbreak : ∀ c ∈ "\n".toList, Json.isSpace c = true := List.forall_mem_singleton.mpr rfl
  rw [String.toList_append, Json.line, String.toList_ofList]
  exact (isReadable_tones h).read_print_append .line 0 hbreak

namespace Commands

open CommandLine

variable {s mid after : Session} {options : CompileOptions} {input : List Char}
  {composer : Composer}

/-! ## The runs -/

theorem compile_of_tones_json {tones : List Tone} (hjson : options.json = true)
    (h : (composerFor options.toScoreOptions >>= fun composer =>
      compileScore composer (scoreOf options.toScoreOptions input)).perform s = (.ok tones, mid)) :
    (compile options input).perform s =
      (.ok success, { mid with
        output := mid.output ++ Json.line (.list (tones.map Sound.toneValue)) ++ "\n" }) := by
  rw [compile, reporting_of_ok h, if_pos hjson]
  rfl

/-- A bad token ends compiling with a message, whatever is to be printed. -/
theorem compile_of_badNote {token : List Char} {cause : NoteFault}
    (h : (composerFor options.toScoreOptions >>= fun composer =>
      compileScore composer (scoreOf options.toScoreOptions input)).perform s =
        (.error (.badNote token cause), mid)) :
    (compile options input).perform s = (fail (badNoteMessage token cause)).perform mid := by
  rw [compile]
  exact reporting_of_message h rfl

theorem reports_compileScore (h : (composerFor options.toScoreOptions).perform s =
    (.ok composer, mid)) (score : List Char) :
    ∃ after, (composerFor options.toScoreOptions >>= fun composer =>
      compileScore composer score).perform s = (composer.compile score, after) ∧
        s.Reports after := by
  obtain ⟨after, hperform, hlogs⟩ := compileScore_perform composer score mid
  refine ⟨after, (Action.perform_bind_of_ok h _).trans hperform, ?_⟩
  exact ((quiet_composerFor _).reports h).trans hlogs.reports

/-- With one composer, the two ways of printing a score tell the same tones: a line for each token,
with the digits of two natural numbers and a blank between, and an array. From either text the
tones that the composer makes are read. Where a token is bad the two runs are the same run: nothing
is printed, and they end with the message about the token. -/
theorem compile_listings_agree (part : String) (options : CompileOptions) (input : List Char)
    {inLines inArray : List Argument} {verbose : Bool}
    (hlines : Calls Grammars.compileTopic Grammars.compile {} inLines verbose
      { options with json := false })
    (harray : Calls Grammars.compileTopic Grammars.compile {} inArray verbose
      { options with json := true })
    (hcomposer : (composerFor options.toScoreOptions).perform { s with verbose } =
      (.ok composer, mid)) :
    (∀ tones, composer.compile (scoreOf options.toScoreOptions input) = .ok tones →
      ∃ printed dumped lines array,
        (run part inLines input).perform s = (.ok success, printed) ∧
        (run part inArray input).perform s = (.ok success, dumped) ∧
        printed.output = s.output ++ unlines lines ∧
        dumped.output = s.output ++ array ++ "\n" ∧
        List.Forall₂ (fun _ line => ∃ frequency duration : ℕ,
          line = numeral frequency ++ " " ++ numeral duration)
          (Score.tokens (scoreOf options.toScoreOptions input)) lines ∧
        tonesOfLines? (unlines lines) = some tones ∧
        Json.read (array ++ "\n").toList = .ok (.list (tones.map Sound.toneValue)) ∧
        (Score.tokens (scoreOf options.toScoreOptions input) = [] → lines = [] ∧ array = "[]")) ∧
    ∀ token cause, composer.compile (scoreOf options.toScoreOptions input) =
        .error (.badNote token cause) →
      ∃ failed lines, (run part inLines input).perform s = (.ok failure, failed) ∧
        (run part inArray input).perform s = (.ok failure, failed) ∧
        failed.output = s.output ∧ failed.errors = s.errors ++
          unlines (lines ++ ["Error: " ++ badNoteMessage token cause]) := by
  obtain ⟨compiled, hcompiled, hreports⟩ :=
    reports_compileScore hcomposer (scoreOf options.toScoreOptions input)
  rw [run_compile hlines, run_compile harray]
  constructor
  · intro tones htones
    have hall := Composer.isCompiled_of_compile htones
    have htokens := Composer.compile_eq_ok_iff.mp htones
    rw [htones] at hcompiled
    refine ⟨_, _, tones.map toneLine, Json.line (.list (tones.map Sound.toneValue)),
      compile_of_tones rfl hcompiled, compile_of_tones_json rfl hcompiled, ?_, ?_, ?_,
      tonesOfLines?_unlines hall, read_line_tones hall, ?_⟩
    · rw [← hreports.output_eq]
    · rw [← hreports.output_eq]
    · refine List.forall₂_map_right_iff.mpr (htokens.imp fun _ t ht => ?_)
      have hcompiledTone := Score.isCompiled_of_compileToken composer.tuning_pos ht
      obtain ⟨frequency, hfrequency, _⟩ := hcompiledTone.exists_frequency
      exact ⟨frequency, t.duration, by rw [toneLine, hfrequency]⟩
    · intro hnone
      rw [hnone] at htokens
      obtain rfl := List.forall₂_nil_left_iff.mp htokens
      exact ⟨rfl, rfl⟩
  · intro token cause hbad
    rw [hbad] at hcompiled
    obtain ⟨lines, hlines⟩ := hreports.exists_lines
    refine ⟨_, lines, compile_of_badNote hcompiled, compile_of_badNote hcompiled,
      hreports.output_eq, ?_⟩
    show compiled.errors ++ ("Error: " ++ badNoteMessage token cause) ++ "\n" = _
    rw [hlines]
    simp [unlines, String.append_assoc]

/-- The arguments that print a quarter note as an array. -/
def compileQuarterAsArray : List Argument :=
  compileQuarter ++ ["--json".toList]

theorem calls_compileQuarterAsArray :
    Calls Grammars.compileTopic Grammars.compile {} compileQuarterAsArray false
      { toScoreOptions := quarter, json := true } :=
  ⟨_, by cbv, by cbv⟩

theorem composerFor_quarter :
    ∃ mid, (composerFor quarter).perform
        { Settings.sessionWith Settings.defaultBytes with verbose := false } =
      (.ok ⟨⟨120, by decide⟩, 440, by decide⟩, mid) := by
  have hquiet : { Settings.sessionWith Settings.defaultBytes with verbose := false } =
      Settings.sessionWith Settings.defaultBytes := rfl
  rw [hquiet]
  have hready := Settings.isReady_sessionWith Settings.defaultBytes
  obtain ⟨loaded, hload, hlogs⟩ := hready.load_of_found found_sessionWith_defaultBytes
  obtain ⟨mid, hcomposer, _⟩ := composerFor_perform quarter hload
  have hnumbers : Settings.HasNoNumbers
      (Settings.sessionWith Settings.defaultBytes).environment := ⟨rfl, rfl⟩
  rw [hlogs.environment_eq, composerGiven_defaults hnumbers, composerByDefault_quarter] at hcomposer
  exact ⟨mid, hcomposer⟩

/-- A quarter note is one line and an array of one pair, and either tells 500 milliseconds of
262 Hertz. -/
theorem compile_listings_agree_quarter :
    ∃ printed dumped line array,
      (run Commands.part compileQuarter []).perform (Settings.sessionWith Settings.defaultBytes) =
        (.ok success, printed) ∧
      (run Commands.part compileQuarterAsArray []).perform
        (Settings.sessionWith Settings.defaultBytes) = (.ok success, dumped) ∧
      printed.output = line ++ "\n" ∧ dumped.output = array ++ "\n" ∧
      tonesOfLines? (line ++ "\n") = some [⟨262, 500⟩] ∧
      Json.read (array ++ "\n").toList = .ok (.list [.list [.int 262, .int 500]]) := by
  obtain ⟨mid, hcomposer⟩ := composerFor_quarter
  obtain ⟨hall, _⟩ := compile_listings_agree Commands.part { toScoreOptions := quarter } []
    calls_compileQuarter calls_compileQuarterAsArray hcomposer
  obtain ⟨printed, dumped, lines, array, hprinted, hdumped, hout, hjson, hlines, hread, harray, _⟩ :=
    hall [⟨262, 500⟩] compile_quarter
  have htokens : (Score.tokens (scoreOf quarter [])).length = 1 := by decide
  obtain ⟨line, rfl⟩ := List.length_eq_one_iff.mp (hlines.length_eq.symm.trans htokens)
  have hempty : (Settings.sessionWith Settings.defaultBytes).output = "" := rfl
  have hsingle : unlines [line] = line ++ "\n" := by simp [unlines]
  rw [hempty, String.empty_append, hsingle] at hout
  rw [hempty, String.empty_append] at hjson
  rw [hsingle] at hread
  exact ⟨printed, dumped, line, array, hprinted, hdumped, hout, hjson, hread, harray⟩

end Commands

end Ringtone
