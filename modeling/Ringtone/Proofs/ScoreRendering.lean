import Ringtone.Proofs.Compilation
import Ringtone.Proofs.Timing
import Ringtone.Proofs.Tokens
import Ringtone.Sound.Wav

/-!
# Rendering compiled scores

A compiled tone lasts at most four minutes, and its frequency is within the range of binary64
numbers. So a compiled score can be rendered at every rate that the header of a file has room for;
what may still be wrong is the style or the gap, and for these there are words.
-/

namespace Ringtone

open Number

/-! ## Compiled tones -/

/-- The length of a whole note at a tempo of one beat, in milliseconds. -/
def longestLength : ℕ := 240000

theorem lengthOnGrid_le {parts beats : ℚ} (hparts : 1 ≤ parts) (hbeats : 1 ≤ beats) :
    lengthOnGrid parts beats ≤ longestLength := by
  have hgrid : ∀ {n : ℤ}, |n| ≤ 2 ^ 53 → ∀ {x : ℚ}, x ≤ n → nearest x ≤ n :=
    fun hn _ hx => nearest_le (onGrid_intCast hn) hx
  have hwhole : nearest (secondTempo / beats) ≤ (240 : ℤ) :=
    hgrid (by norm_num) (div_le_self (by norm_num [secondTempo]) hbeats)
  have hpositive : 0 ≤ nearest (secondTempo / beats) :=
    nearest_nonneg (div_nonneg (by norm_num [secondTempo]) (by linarith))
  have hnote : nearest (nearest (secondTempo / beats) / parts) ≤ (240 : ℤ) :=
    hgrid (by norm_num) ((div_le_self hpositive hparts).trans hwhole)
  have hnonneg : 0 ≤ nearest (nearest (secondTempo / beats) / parts) :=
    nearest_nonneg (div_nonneg hpositive (by linarith))
  have hlength : nearest (nearest (nearest (secondTempo / beats) / parts) * 1000) ≤
      (240000 : ℤ) := by
    refine hgrid (by norm_num) ?_
    push_cast at hnote ⊢
    linarith
  rw [lengthOnGrid, truncate_of_nonneg (nearest_nonneg (by linarith))]
  exact_mod_cast (Int.floor_le _).trans hlength

theorem noteLength_le {fraction : Fraction} {tempo : Tempo} {length : ℕ}
    (h : noteLength fraction tempo = .ok length) : length ≤ longestLength := by
  rcases lt_or_ge tempo.beats rangeLimit with htempo | htempo
  · rcases lt_or_ge fraction.parts rangeLimit with hparts | hparts
    · rw [noteLength_eq_ok htempo hparts] at h
      cases h
      have := lengthOnGrid_le (one_le_nearest fraction.parts_pos) (one_le_nearest tempo.beats_pos)
      omega
    · rw [noteLength_of_large_fraction htempo hparts] at h
      cases h
  · rw [noteLength_of_large_tempo htempo] at h
    cases h

/-- A tone as a composer makes it: no longer than a whole note can be, and with a frequency that is
not below zero and within the range. -/
structure Tone.IsCompiled (t : Tone) : Prop where
  duration_le : t.duration ≤ longestLength
  frequency_nonneg : 0 ≤ t.frequency
  frequency_lt : t.frequency.natAbs < rangeLimit

theorem Score.isCompiled_of_compileToken {tempo : Tempo} {tuning : ℕ} {token : List Char}
    {tone : Tone} (htuning : 0 < tuning) (h : compileToken tempo tuning token = .ok tone) :
    tone.IsCompiled := by
  obtain ⟨note, hwritten, _⟩ := (plays_iff htuning).mp ⟨tone, h⟩
  rw [compileToken_of_isWritten hwritten, toneOf] at h
  cases hfrequency : note.pitch.frequency (.whole tuning) with
  | error fault => rw [hfrequency] at h; cases h
  | ok frequency =>
    cases hlength : noteLength note.fraction tempo with
    | error fault => rw [hfrequency, hlength] at h; cases h
    | ok length =>
      rw [hfrequency, hlength] at h
      cases h
      exact ⟨noteLength_le hlength, Pitch.frequency_nonneg htuning hfrequency,
        Pitch.natAbs_frequency_lt htuning hfrequency⟩

theorem Composer.isCompiled_of_compile {composer : Composer} {score : List Char}
    {tones : List Tone} (h : composer.compile score = .ok tones) : ∀ t ∈ tones, t.IsCompiled := by
  have hcompiled := (compile_eq_ok_iff.mp h).imp fun _ _ =>
    Score.isCompiled_of_compileToken composer.tuning_pos
  clear h
  generalize Score.tokens score = tokens at hcompiled
  induction hcompiled with
  | nil => exact List.forall_mem_nil _
  | cons htone _ ih => exact List.forall_mem_cons.mpr ⟨htone, ih⟩

theorem Composer.compile_ne_nil {composer : Composer} {score : List Char} {tones : List Tone}
    (h : composer.compile score = .ok tones) (hscore : ∃ c ∈ score, Text.isBlank c = false) :
    tones ≠ [] := by
  rintro rfl
  have hnil : Score.tokens score = [] := List.forall₂_nil_right_iff.mp (compile_eq_ok_iff.mp h)
  obtain ⟨c, hc, hblank⟩ := hscore
  rw [Score.tokens_eq_nil_iff.mp hnil c hc] at hblank
  cases hblank

/-! ## Rendering them -/

/-- There are words for a fault about a value that is not too deep if there are for the kind of the
fault. -/
theorem Fault.exists_message_aboutWithin {fault : Fault} {given : Value} {levels : ℕ}
    (h : ∃ message, fault.message? = some message) (hgiven : given.Fits levels) :
    ∃ message, (aboutWithin levels fault given).message? = some message := by
  rw [aboutWithin]
  cases hobstacle : given.obstacle? levels with
  | none => exact h
  | some obstacle =>
    cases obstacle with
    | numeral => exact ⟨_, rfl⟩
    | nesting => exact absurd hobstacle hgiven

theorem Composer.exists_message_of_make {tempo tuning : Value} {fault : Fault}
    (htempo : tempo.Fits Value.levelLimit) (htuning : tuning.Fits Value.levelLimit)
    (h : make tempo tuning = .error fault) : ∃ message, fault.message? = some message := by
  rw [make, Tempo.ofValue, Tempo.ofValueWithin] at h
  cases hpositive : tempo.positive? with
  | none =>
    rw [hpositive] at h
    rw [← Except.error.inj h]
    exact Fault.exists_message_aboutWithin ⟨_, rfl⟩ htempo
  | some beats =>
    rw [hpositive] at h
    simp only [bind, Except.bind] at h
    split at h
    · cases h
    · rw [← Except.error.inj h]
      exact Fault.exists_message_aboutWithin ⟨_, rfl⟩ htuning

/-- Of the faults of a token there are words for all but a frequency beyond the range. -/
theorem Score.Refused.exists_message {tempo : Tempo} {tuning : ℕ} {token : List Char}
    {fault : Fault} (h : Refused tempo tuning token fault) :
    (∃ message, fault.message? = some message) ∨
      ∃ note : Note, note.IsWritten token ∧ note.pitch.Overflows tuning ∧
        fault = .number .tooLarge := by
  cases h with
  | flaw _ _ | tempo _ _ _ _ | unwritableTempo _ _ _ | fraction _ _ _ _ => exact Or.inl ⟨_, rfl⟩
  | frequency hwritten hover => exact Or.inr ⟨_, hwritten, hover, rfl⟩

namespace Sound

variable {rate : ℕ} {tones : List Tone}

theorem mul_duration_lt {t : Tone} (ht : t.IsCompiled) (hlimit : 2 * rate < wordLimit) :
    rate * t.duration < 2 ^ 53 := by
  have hrate : rate ≤ 2 ^ 31 := by
    rw [wordLimit] at hlimit
    omega
  exact (Nat.mul_le_mul hrate ht.duration_le).trans_lt (by norm_num [longestLength])

theorem not_overloaded {t : Tone} (ht : t.IsCompiled) (hlimit : 2 * rate < wordLimit) (gap : ℕ)
    (style : Style) : ¬ Overloaded rate gap style t := by
  have hrate : rate < rangeLimit := by
    rw [wordLimit] at hlimit
    exact lt_rangeLimit (k := 31) (by norm_num) (by omega)
  rintro (hlarge | ⟨hlarge, _⟩)
  · exact absurd hrate (not_lt.mpr hlarge)
  · exact absurd ht.frequency_lt (not_lt.mpr hlarge)

/-- Compiled tones can be rendered at a rate that the header has room for. -/
theorem exists_samples_of_isCompiled (htones : ∀ t ∈ tones, t.IsCompiled) (hrate : 1 ≤ rate)
    (hlimit : 2 * rate < wordLimit) (style : Style) (gap : ℕ) :
    ∃ samples, renderTones tones (.int rate) (.ofString style.name) (.int gap) = .ok samples ∧
      samples.length = (tones.map fun t => samplesIn rate t.duration).sum := by
  have hover : ∀ t ∈ tones, ¬ Overloaded rate gap style t :=
    fun t ht => not_overloaded (htones t ht) hlimit gap style
  obtain ⟨parts, hparts, hrender⟩ := exists_parts_of_not_overloaded hrate
    (fun t ht => mul_duration_lt (htones t ht) hlimit) hover
  exact ⟨_, hrender, length_flatten_of_forall₂ (fun _ _ hpart => hpart.length_eq) hparts⟩

theorem eq_ofString_of_style_ofValue {value : Value} {style : Style}
    (h : Style.ofValue value = .ok style) : value = .ofString style.name := by
  cases value with
  | text name =>
    rw [Style.ofValue] at h
    cases hfind : Style.all.find? fun style => Text.Points.ofString style.name = name with
    | none => simp only [hfind, reduceCtorEq] at h
    | some found =>
      simp only [hfind, Except.ok.injEq] at h
      have hname : Text.Points.ofString found.name = name := by simpa using List.find?_some hfind
      rw [← h, Value.ofString, hname]
  | _ => cases h

theorem exists_message_of_style_ofValue {value : Value} {fault : Fault}
    (hvalue : value.Fits Value.levelLimit) (h : Style.ofValue value = .error fault) :
    ∃ message, fault.message? = some message := by
  unfold Style.ofValue at h
  dsimp only at h
  split at h
  · cases h
  · cases h
    exact Fault.exists_message_aboutWithin ⟨_, rfl⟩ hvalue

theorem renderTones_of_negative_gap {gap : ℤ} (hgap : gap < 0) (tones : List Tone)
    (rate style : Value) :
    renderTones tones rate style (.int gap) = .error (.about .negativeGap (.int gap)) := by
  have hnegative : (Quantity.whole gap).isNegative = true := by
    rw [Quantity.isNegative, decide_eq_true hgap]
  simp only [renderTones, render, Value.quantity, hnegative, bind, Except.bind, if_true, throw,
    throwThe, MonadExceptOf.throw]

theorem toneWithGap_of_unknown_style {rate style : Value} {fault : Fault}
    (h : Style.ofValue style = .error fault) (gap : ℕ) (t : Tone) :
    toneWithGap rate style (.whole gap) (toneValue t) = .error fault := by
  simp only [toneWithGap, toneValue, pairOf, partsOf, Value.quantity, Quantity.sub, bind,
    Except.bind, pure, Except.pure, ofNumber, Except.mapError, tone, h]

end Sound

end Ringtone
