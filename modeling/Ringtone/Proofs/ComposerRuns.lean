import Ringtone.Proofs.Compilation
import Ringtone.Proofs.ScoreLayout

/-!
# Composers through many steps

A composer keeps nothing but its tempo and its tuning. No step changes the tuning, and only an
accepted change of the tempo changes the tempo, so that after any steps the tempo is the last one
accepted. What a step is answered is therefore what a new composer answers, whatever has been asked
before and whether it failed or not.
-/

namespace Ringtone.Composer

variable {composer : Composer} {tempo tuning value : Value} {score : List Char}

theorem make_eq_ok_iff : make tempo tuning = .ok composer ↔
    tempo = .int composer.tempo.beats ∧ tuning = .int composer.tuning := by
  rw [← Tempo.ofValue_eq_ok_iff]
  have hpositive : tuning.positive? = some ⟨composer.tuning, composer.tuning_pos⟩ ↔
      tuning = .int composer.tuning := positive?_eq_some_iff
  rw [← hpositive, make]
  cases Tempo.ofValue tempo with
  | error fault => simp [bind, Except.bind]
  | ok beats =>
    simp only [bind, Except.bind, Except.ok.injEq]
    constructor
    · intro h
      split at h
      · rename_i n hn heq
        cases h
        exact ⟨rfl, heq⟩
      · cases h
    · rintro ⟨rfl, h⟩
      rw [h]

/-! ## Scores that hold surrogates -/

/-- A score that holds a surrogate has no tones. So nothing is lost by reading the escape of its
number in the place of a surrogate. -/
theorem compile_of_surrogate {text : Text.Points} (h : ¬ ∃ chars, text = .ofChars chars)
    (composer : Composer) (tones : List Tone) :
    (scoreOf (.text text) >>= composer.compile) ≠ .ok tones := by
  intro hcompile
  have hescape := Text.Points.backslash_mem_toChars h
  obtain ⟨token, htoken, hmem⟩ := Score.exists_mem_tokens hescape (by decide)
  obtain ⟨tone, htone⟩ := exists_ok_of_mapM (show composer.compile text.toChars = _ from hcompile)
    htoken
  obtain ⟨note, hwritten, _⟩ := (Score.plays_iff composer.tuning_pos).mp ⟨tone, htone⟩
  exact hwritten.notMem_backslash hmem

/-! ## Faults without detail -/

theorem compile_ne_badScore {token : List Char} {cause : NoteFault} :
    composer.compile score ≠ .error (.badScore token cause) := by
  intro h
  obtain ⟨_, _, _, _, _, hrefused⟩ := compile_eq_error_iff.mp h
  cases hrefused

theorem compileUnchecked_eq_ok_iff {tones : List Tone} :
    composer.compileUnchecked score = .ok tones ↔ composer.compile score = .ok tones := by
  rw [compileUnchecked]
  cases composer.compile score <;> simp [Except.mapError]

theorem compileUnchecked_eq_badScore_iff {token : List Char} {cause : NoteFault} :
    composer.compileUnchecked score = .error (.badScore token cause) ↔
      composer.compile score = .error (.badNote token cause) := by
  rw [compileUnchecked]
  cases hcompile : composer.compile score with
  | ok tones => simp [Except.mapError]
  | error fault =>
    cases fault with
    | badNote other why => simp [Except.mapError]
    | badScore other why => exact absurd hcompile compile_ne_badScore
    | _ => simp [Except.mapError]

/-! ## One step -/

/-- The values that are tempos: the whole numbers above zero, and no truth value. -/
def IsTempo (value : Value) : Prop := ∃ n : ℤ, 0 < n ∧ value = .int n

theorem isTempo_iff : IsTempo value ↔ ∃ tempo, Tempo.ofValue value = .ok tempo := by
  simp only [Tempo.ofValue_eq_ok_iff]
  constructor
  · rintro ⟨n, hpos, rfl⟩
    exact ⟨⟨n.toNat, by omega⟩, by rw [Int.toNat_of_nonneg hpos.le]⟩
  · rintro ⟨tempo, rfl⟩
    exact ⟨_, by exact_mod_cast tempo.beats_pos, rfl⟩

theorem isTempo_beats (composer : Composer) : IsTempo (.int composer.tempo.beats) :=
  isTempo_iff.mpr ⟨composer.tempo, Tempo.ofValue_eq_ok_iff.mpr rfl⟩

/-- What a step is to make the tempo, if it is a change of it, in either of the two ways. -/
def Step.newTempo? : Step → Option Value
  | .changeTempo tempo | .setTempo tempo => some tempo
  | _ => none

/-- Both ways to change the tempo do the same. -/
theorem step_of_newTempo? {step : Step} (h : step.newTempo? = some value) (composer : Composer) :
    composer.step step = composer.answerChange (composer.changeTempo value) := by
  cases step with
  | changeTempo tempo | setTempo tempo =>
    cases h
    rfl
  | _ => cases h

theorem step_of_newTempo?_eq_none {step : Step} (h : step.newTempo? = none) (composer : Composer) :
    (composer.step step).2 = composer := by
  cases step with
  | changeTempo _ | setTempo _ => cases h
  | _ => rfl

/-- Either a step changes the tempo to its argument and nothing else, or it changes nothing; and
then it is no change to a tempo. -/
theorem step_cases (composer : Composer) (step : Step) :
    (∃ tempo : Tempo, step.newTempo? = some (.int tempo.beats) ∧
      composer.step step = (.ok .done, { composer with tempo })) ∨
    (composer.step step).2 = composer ∧ ∀ value, step.newTempo? = some value →
      ¬ IsTempo value ∧ ∃ fault, (composer.step step).1 = .error fault := by
  cases hnew : step.newTempo? with
  | none => exact Or.inr ⟨step_of_newTempo?_eq_none hnew composer, fun _ h => by cases h⟩
  | some value =>
    rw [step_of_newTempo? hnew, changeTempo]
    cases hvalue : Tempo.ofValue value with
    | ok tempo => exact Or.inl ⟨tempo, congrArg some (Tempo.ofValue_eq_ok_iff.mp hvalue), rfl⟩
    | error fault =>
      refine Or.inr ⟨rfl, ?_⟩
      rintro _ ⟨⟩
      rw [isTempo_iff, hvalue]
      exact ⟨by simp, fault, rfl⟩

theorem step_tuning (composer : Composer) (step : Step) :
    (composer.step step).2.tuning = composer.tuning := by
  rcases step_cases composer step with ⟨tempo, _, h⟩ | ⟨h, _⟩
  · rw [h]
  · rw [h]

theorem step_of_error {step : Step} {fault : Fault} (h : (composer.step step).1 = .error fault) :
    (composer.step step).2 = composer := by
  rcases step_cases composer step with ⟨tempo, _, hstep⟩ | ⟨hsame, _⟩
  · rw [hstep] at h
    cases h
  · exact hsame

theorem step_eq_ok_iff_of_newTempo? {step : Step} (h : step.newTempo? = some value) :
    (∃ answer, (composer.step step).1 = .ok answer) ↔ IsTempo value := by
  rcases step_cases composer step with ⟨tempo, hvalue, hstep⟩ | ⟨_, hrejected⟩
  · rw [h] at hvalue
    rw [Option.some.inj hvalue, isTempo_iff, hstep]
    exact ⟨fun _ => ⟨tempo, Tempo.ofValue_eq_ok_iff.mpr rfl⟩, fun _ => ⟨.done, rfl⟩⟩
  · obtain ⟨hno, fault, hfault⟩ := hrejected value h
    rw [hfault]
    simp [hno]

theorem step_compileUnchecked_eq_ok_iff {answer : Answer} :
    (composer.step (.compileUnchecked value)).1 = .ok answer ↔
      (composer.step (.compile value)).1 = .ok answer := by
  simp only [Composer.step, map_eq_ok_iff]
  cases scoreOf value with
  | error fault => rfl
  | ok score =>
    show (∃ tones, composer.compileUnchecked score = .ok tones ∧ _) ↔ _
    simp only [compileUnchecked_eq_ok_iff]
    rfl

theorem step_compileUnchecked_eq_badScore_iff {token : List Char} {cause : NoteFault} :
    (composer.step (.compileUnchecked value)).1 = .error (.badScore token cause) ↔
      (composer.step (.compile value)).1 = .error (.badNote token cause) := by
  simp only [Composer.step, map_eq_error_iff]
  cases value with
  | text score => exact compileUnchecked_eq_badScore_iff
  | _ => simp [scoreOf, bind, Except.bind]

/-! ## Many steps -/

/-- The composer after some steps. -/
def after (composer : Composer) (steps : List Step) : Composer :=
  steps.foldl (fun composer step => (composer.step step).2) composer

theorem after_append_singleton (composer : Composer) (steps : List Step) (step : Step) :
    composer.after (steps ++ [step]) = ((composer.after steps).step step).2 := by
  rw [after, List.foldl_append]
  rfl

theorem after_tuning (composer : Composer) (steps : List Step) :
    (composer.after steps).tuning = composer.tuning := by
  induction steps using List.reverseRecOn with
  | nil => rfl
  | append_singleton steps step ih => rw [after_append_singleton, step_tuning, ih]

/-- Some steps without a change to a tempo. -/
def KeepTempo (steps : List Step) : Prop :=
  ∀ step ∈ steps, ∀ value, step.newTempo? = some value → ¬ IsTempo value

theorem KeepTempo.append_singleton {steps : List Step} {step : Step} (h : KeepTempo steps)
    (hstep : ∀ value, step.newTempo? = some value → ¬ IsTempo value) :
    KeepTempo (steps ++ [step]) :=
  List.forall_mem_append.mpr ⟨h, List.forall_mem_singleton.mpr hstep⟩

/-- The tempo that steps leave: the argument of the last change to a tempo, or, if there is none,
the tempo before them. -/
inductive LastTempo (initial : Value) (steps : List Step) : Value → Prop
  /-- No step is a change to a tempo. -/
  | initial (h : KeepTempo steps) : LastTempo initial steps initial
  /-- A step is one, and none after it. -/
  | changed {before after : List Step} {step : Step} {value : Value}
      (hsteps : steps = before ++ step :: after) (hstep : step.newTempo? = some value)
      (hvalue : IsTempo value) (h : KeepTempo after) : LastTempo initial steps value

/-- Another step that is no change to a tempo leaves the same. -/
theorem LastTempo.append {initial : Value} {steps : List Step} (h : LastTempo initial steps value)
    {step : Step} (hstep : ∀ other, step.newTempo? = some other → ¬ IsTempo other) :
    LastTempo initial (steps ++ [step]) value := by
  cases h with
  | initial h => exact .initial (h.append_singleton hstep)
  | changed hsteps hnew hvalue h =>
    exact .changed (by rw [hsteps, List.append_assoc, List.cons_append]) hnew hvalue
      (h.append_singleton hstep)

theorem lastTempo_after (composer : Composer) (steps : List Step) :
    LastTempo (.int composer.tempo.beats) steps (.int (composer.after steps).tempo.beats) := by
  induction steps using List.reverseRecOn with
  | nil => exact .initial (List.forall_mem_nil _)
  | append_singleton steps step ih =>
    rw [after_append_singleton]
    -- the last step is the change that counts, or leaves what those before it left
    rcases step_cases (composer.after steps) step with ⟨tempo, hnew, hstep⟩ | ⟨hsame, hrejected⟩
    · rw [hstep]
      exact .changed rfl hnew (isTempo_beats { composer.after steps with tempo })
        (List.forall_mem_nil _)
    · rw [hsame]
      exact ih.append fun other hother => (hrejected other hother).1

/-- A composer that was made answers each step as a new one of its current tempo and tuning does,
whatever has been asked before. The tempo is the last one accepted, the tuning is the one it was
made with, and a step that fails leaves both. Compiling without detail gives the same tones, and its
own fault, with the same words, exactly where compiling meets an invalid note. -/
theorem history_independent (tempo tuning : Value) (composer : Composer)
    (hmake : make tempo tuning = .ok composer) (earlier : List Step) (step : Step) :
    LastTempo tempo (earlier ++ [step]) (.int (composer.after (earlier ++ [step])).tempo.beats) ∧
    IsTempo (.int (composer.after (earlier ++ [step])).tempo.beats) ∧
    Value.int (composer.after (earlier ++ [step])).tuning = tuning ∧
    (∀ fault, ((composer.after earlier).step step).1 = .error fault →
      composer.after (earlier ++ [step]) = composer.after earlier) ∧
    (∀ value, step.newTempo? = some value →
      ((∃ answer, ((composer.after earlier).step step).1 = .ok answer) ↔ IsTempo value)) ∧
    (∃ fresh, make (.int (composer.after earlier).tempo.beats)
        (.int (composer.after earlier).tuning) = .ok fresh ∧
      (fresh.step step).1 = ((composer.after earlier).step step).1) ∧
    (∀ score answer, ((composer.after earlier).step (.compileUnchecked score)).1 = .ok answer ↔
      ((composer.after earlier).step (.compile score)).1 = .ok answer) ∧
    ∀ score token cause,
      (((composer.after earlier).step (.compileUnchecked score)).1 =
          .error (.badScore token cause) ↔
        ((composer.after earlier).step (.compile score)).1 = .error (.badNote token cause)) ∧
      (Fault.badScore token cause).message? = (Fault.badNote token cause).message? := by
  obtain ⟨rfl, rfl⟩ := make_eq_ok_iff.mp hmake
  refine ⟨lastTempo_after composer _, isTempo_beats _, ?_, ?_, ?_, ?_, ?_, ?_⟩
  · rw [after_tuning]
  · intro fault hfault
    rw [after_append_singleton, step_of_error hfault]
  · intro value hvalue
    exact step_eq_ok_iff_of_newTempo? hvalue
  · exact ⟨composer.after earlier, make_eq_ok_iff.mpr ⟨rfl, rfl⟩, rfl⟩
  · intro score answer
    exact step_compileUnchecked_eq_ok_iff
  · intro score token cause
    exact ⟨step_compileUnchecked_eq_badScore_iff, rfl⟩

/-- A truth value and a score that does not compile are both without effect. -/
theorem history_independent_failures :
    let composer : Composer := ⟨⟨120, by decide⟩, 440, by decide⟩
    let earlier : List Step := [.changeTempo (.int 90), .setTempo (.bool true)]
    make (.int 120) (.int 440) = .ok composer ∧
      composer.after (earlier ++ [.compile (.ofString "4h4")]) = composer.after earlier := by
  intro composer earlier
  have hmake : make (.int 120) (.int 440) = .ok composer := rfl
  have hfault : ((composer.after earlier).step (.compile (.ofString "4h4"))).1 =
      .error (.badNote "4h4".toList (.unknownPitch (.ofString "h4"))) := rfl
  exact ⟨hmake, (history_independent _ _ composer hmake earlier _).2.2.2.1 _ hfault⟩

end Ringtone.Composer
