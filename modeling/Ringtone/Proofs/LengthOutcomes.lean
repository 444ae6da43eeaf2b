import Ringtone.Proofs.Decimals
import Ringtone.Proofs.NoteLengths

/-!
# What comes of asking for a length

Whatever is given for a fraction and a tempo, there is a length of at most four minutes or a fault
that names one of the two: the fraction when it is no whole number above zero, then the tempo when
it is none or is beyond the range, then the fraction when it is beyond the range. The fault is told
unless the value cannot be written into its message: because of a numeral with too many digits, or
because its parts lie too deep within each other. A greater fraction or tempo never gives a longer
note, since each of the roundings on the way is monotone.
-/

namespace Ringtone

open Number

/-! ## Values that can be written -/

theorem Number.isWritable_iff (n : ℤ) :
    isWritable n = true ↔ (decimalDigits n.natAbs).length ≤ numeralLimit := by
  have hpow : ∀ k, Nat.pow 10 k = 10 ^ k := fun _ => rfl
  rw [isWritable, decide_eq_true_eq, hpow]
  exact (Nat.length_toDigits_le_iff (by norm_num) (by decide)).symm

theorem Number.isWritable_eq_false_iff (n : ℤ) :
    isWritable n = false ↔ numeralLimit < (decimalDigits n.natAbs).length := by
  rw [← Bool.not_eq_true, isWritable_iff, not_le]

namespace Value

/-- The value is a whole number above zero. -/
def IsPositive (value : Value) : Prop := ∃ n : ℕ, 0 < n ∧ value = .int n

theorem positive?_eq_none_iff (value : Value) : value.positive? = none ↔ ¬ value.IsPositive := by
  constructor
  · rintro hnone ⟨n, hn, rfl⟩
    rw [positive?_natCast hn] at hnone
    cases hnone
  · intro h
    cases hpositive : value.positive? with
    | none => rfl
    | some n => exact absurd ⟨n, n.2, positive?_eq_some_iff.mp hpositive⟩ h

/-- Empty lists within each other, so many levels deep. -/
def nested : ℕ → Value
  | 0 => .list []
  | depth + 1 => .list [nested depth]

/-- The parts of lists within each other are such lists. -/
theorem Part.eq_nested {part value : Value} {depth : ℕ} (h : Part part depth value) :
    ∀ {levels : ℕ}, value = nested levels → part = nested (levels - depth) := by
  induction h with
  | self => exact id
  | child hmem _ ih =>
    rintro levels rfl
    cases levels with
    | zero => cases hmem
    | succ levels =>
      rw [Nat.add_sub_add_right]
      exact ih (List.mem_singleton.mp hmem)

/-- No number stands among empty lists. -/
theorem not_part_int_of_nested {n : ℤ} {depth levels : ℕ} :
    ¬ Part (.int n) depth (nested levels) := by
  intro h
  have hpart := h.eq_nested rfl
  cases hlevels : levels - depth <;> rw [hlevels] at hpart <;> cases hpart

theorem obstacle?_nested {levels : ℕ} : ∀ {depth : ℕ}, levels < depth →
    (nested depth).obstacle? levels = some .nesting := by
  induction levels with
  | zero =>
    intro depth h
    obtain ⟨depth, rfl⟩ := Nat.exists_eq_succ_of_ne_zero h.ne'
    rfl
  | succ levels ih =>
    intro depth h
    obtain ⟨depth, rfl⟩ := Nat.exists_eq_succ_of_ne_zero (Nat.zero_lt_of_lt h).ne'
    rw [nested, obstacle?, obstacleOfItems?, ih (Nat.lt_of_succ_lt_succ h)]
    rfl

end Value

/-! ## Faults of a length -/

/-- How a fault about a value is raised where a message has room for so many levels: as what it is;
or, when a whole number in the value has too many digits for the message, as the fault of that
numeral; or, when a part of the value lies deeper than there is room for, as the fault of that. -/
inductive NoteFault.RaisedAs (levels : ℕ) (cause : NoteFault) : Fault → Prop
  | told (hdepths : ∀ part depth, Value.Part part depth cause.given → depth ≤ levels)
      (hnumbers : ∀ n depth, Value.Part (.int n) depth cause.given →
        (decimalDigits n.natAbs).length ≤ numeralLimit) : RaisedAs levels cause (.note cause)
  | long {n : ℤ} {depth : ℕ} (h : Value.Part (.int n) depth cause.given) (hdepth : depth ≤ levels)
      (hlong : numeralLimit < (decimalDigits n.natAbs).length) :
    RaisedAs levels cause .unwritableNumeral
  | deep {part : Value} {depth : ℕ} (h : Value.Part part depth cause.given)
      (hdeep : levels < depth) : RaisedAs levels cause .nesting

theorem NoteFault.raisedAs_ofNoteWithin (levels : ℕ) (cause : NoteFault) :
    cause.RaisedAs levels (.ofNoteWithin levels cause) := by
  rw [Fault.ofNoteWithin, Fault.aboutWithin]
  cases hobstacle : cause.given.obstacle? levels with
  | none =>
    obtain ⟨hdepths, hnumbers⟩ := Value.obstacle?_eq_none_iff.mp hobstacle
    exact .told hdepths fun n depth h => (Number.isWritable_iff n).mp (hnumbers n depth h)
  | some obstacle =>
    cases Value.shows_of_obstacle?_eq_some _ hobstacle with
    | numeral h hdepth hlong =>
      exact .long h hdepth ((Number.isWritable_eq_false_iff _).mp hlong)
    | nesting h hdepth => exact .deep h hdepth

/-- What comes of asking for the length of a fraction at a tempo, whatever the two values are, where
a message has room for so many levels. -/
inductive LengthOutcome (levels : ℕ) (fraction tempo : Value) : Except Fault ℕ → Prop
  | fraction {fault : Fault} (hfraction : ¬ fraction.IsPositive)
      (hfault : (NoteFault.invalidFraction fraction .notPositive).RaisedAs levels fault) :
    LengthOutcome levels fraction tempo (.error fault)
  | tempo {fault : Fault} (hfraction : fraction.IsPositive) (htempo : ¬ tempo.IsPositive)
      (hfault : (NoteFault.invalidTempo tempo .notPositive).RaisedAs levels fault) :
    LengthOutcome levels fraction tempo (.error fault)
  | largeTempo {fault : Fault} {beats : ℕ} (hfraction : fraction.IsPositive)
      (htempo : tempo = .int beats) (hlarge : rangeLimit ≤ beats)
      (hfault : (NoteFault.invalidTempo tempo .tooLarge).RaisedAs levels fault) :
    LengthOutcome levels fraction tempo (.error fault)
  | largeFraction {fault : Fault} {parts beats : ℕ} (htempo : tempo = .int beats)
      (hpositive : 0 < beats) (hbeats : beats < rangeLimit) (hfraction : fraction = .int parts)
      (hlarge : rangeLimit ≤ parts)
      (hfault : (NoteFault.invalidFraction fraction .tooLarge).RaisedAs levels fault) :
    LengthOutcome levels fraction tempo (.error fault)
  | length {parts beats milliseconds : ℕ} (hfraction : fraction = .int parts) (hparts : 0 < parts)
      (hpartsLt : parts < rangeLimit) (htempo : tempo = .int beats) (hbeats : 0 < beats)
      (hbeatsLt : beats < rangeLimit) (hle : milliseconds ≤ longestLength) :
    LengthOutcome levels fraction tempo (.ok milliseconds)

/-- A fault about a whole number is raised alike wherever there is room for the number itself. -/
theorem NoteFault.raisedAs_ofNote_int {cause : NoteFault} {n : ℤ} (h : cause.given = .int n)
    (levels : ℕ) : cause.RaisedAs levels (.ofNote cause) := by
  have hsame : Fault.ofNote cause = .ofNoteWithin levels cause := by
    rw [Fault.ofNote, Fault.ofNoteWithin_int h, Fault.ofNoteWithin_int h]
  rw [hsame]
  exact raisedAs_ofNoteWithin levels cause

theorem noteLength_outcome (levels : ℕ) (fraction : Fraction) (tempo : Tempo) :
    LengthOutcome levels (.int fraction.parts) (.int tempo.beats) (noteLength fraction tempo) := by
  have hfraction : (Value.int fraction.parts).IsPositive := ⟨_, fraction.parts_pos, rfl⟩
  rcases lt_or_ge tempo.beats rangeLimit with htempo | htempo
  · rcases lt_or_ge fraction.parts rangeLimit with hparts | hparts
    · have hok := noteLength_eq_ok htempo hparts
      rw [hok]
      exact .length rfl fraction.parts_pos hparts rfl tempo.beats_pos htempo (noteLength_le hok)
    · rw [noteLength_of_large_fraction htempo hparts]
      exact .largeFraction rfl tempo.beats_pos htempo rfl hparts
        (NoteFault.raisedAs_ofNote_int rfl levels)
  · rw [noteLength_of_large_tempo htempo]
    exact .largeTempo hfraction rfl htempo (NoteFault.raisedAs_ofNote_int rfl levels)

theorem durationWithin_of_fraction {fraction : Value} (h : ¬ fraction.IsPositive) (levels : ℕ)
    (tempo : Value) : durationWithin levels fraction tempo =
      .error (.ofNoteWithin levels (.invalidFraction fraction .notPositive)) := by
  have hnone := (Value.positive?_eq_none_iff fraction).mpr h
  rw [durationWithin, Fraction.ofValueWithin, hnone]
  rfl

theorem durationWithin_of_tempo (levels : ℕ) (fraction : Fraction) {tempo : Value}
    (h : ¬ tempo.IsPositive) : durationWithin levels (.int fraction.parts) tempo =
      .error (.ofNoteWithin levels (.invalidTempo tempo .notPositive)) := by
  have hnone := (Value.positive?_eq_none_iff tempo).mpr h
  have hparts : (Value.int fraction.parts).positive? = some ⟨fraction.parts, fraction.parts_pos⟩ :=
    positive?_eq_some_iff.mpr rfl
  rw [durationWithin, Fraction.ofValueWithin, hparts, Tempo.ofValueWithin, hnone]
  rfl

/-- Asking for a length gives a length or a fault of fraction or tempo, whatever is given and
however much room there is for the message. -/
theorem durationWithin_outcome (levels : ℕ) (fraction tempo : Value) :
    LengthOutcome levels fraction tempo (durationWithin levels fraction tempo) := by
  by_cases hfraction : fraction.IsPositive
  · obtain ⟨parts, hparts, rfl⟩ := hfraction
    by_cases htempo : tempo.IsPositive
    · obtain ⟨beats, hbeats, rfl⟩ := htempo
      have hduration := durationWithin_natCast levels ⟨parts, hparts⟩ ⟨beats, hbeats⟩
      rw [hduration]
      exact noteLength_outcome levels ⟨parts, hparts⟩ ⟨beats, hbeats⟩
    · have hduration := durationWithin_of_tempo levels ⟨parts, hparts⟩ htempo
      rw [hduration]
      exact .tempo ⟨parts, hparts, rfl⟩ htempo (NoteFault.raisedAs_ofNoteWithin levels _)
  · rw [durationWithin_of_fraction hfraction]
    exact .fraction hfraction (NoteFault.raisedAs_ofNoteWithin levels _)

/-- A list of lists a thousand levels deep is no fraction, and it holds no number at all; yet asking
for its length does not end in the fault of the fraction, since there is no room to write it. -/
theorem durationOf_nested_lists :
    ¬ (Value.nested 1000).IsPositive ∧
      (∀ n depth, ¬ Value.Part (.int n) depth (Value.nested 1000)) ∧
      durationOf (Value.nested 1000) (.int 120) = .error .nesting := by
  have hnested : ¬ (Value.nested 1000).IsPositive := by
    rintro ⟨n, _, h⟩
    cases h
  refine ⟨hnested, fun _ _ => Value.not_part_int_of_nested, ?_⟩
  have hobstacle : (Value.nested 1000).obstacle? Value.levelLimit = some .nesting :=
    Value.obstacle?_nested (by decide)
  rw [durationOf, durationWithin_of_fraction hnested, Fault.ofNoteWithin, Fault.aboutWithin,
    NoteFault.given, hobstacle]
  rfl

/-! ## Longer and shorter notes -/

variable {fraction other : Fraction} {tempo faster : Tempo}

theorem durationOf_of_lt (fraction : Fraction) (tempo : Tempo)
    (hparts : fraction.parts < rangeLimit) (hbeats : tempo.beats < rangeLimit) :
    durationOf (.int fraction.parts) (.int tempo.beats) = .ok (fraction.milliseconds tempo) := by
  rw [durationOf_natCast, noteLength_eq_ok hbeats hparts]
  rfl

theorem nearest_natCast_mono {m n : ℕ} (h : m ≤ n) : nearest m ≤ nearest n :=
  nearest_mono (by exact_mod_cast h)

theorem Tempo.seconds_antitone (h : tempo.beats ≤ faster.beats) :
    faster.seconds ≤ tempo.seconds := by
  have hone := one_le_nearest tempo.beats_pos
  refine nearest_mono ?_
  exact div_le_div_of_nonneg_left (by norm_num [secondTempo]) (by linarith) (nearest_natCast_mono h)

theorem Fraction.seconds_antitone (hparts : fraction.parts ≤ other.parts)
    (hbeats : tempo.beats ≤ faster.beats) : other.seconds faster ≤ fraction.seconds tempo := by
  have hone := one_le_nearest fraction.parts_pos
  refine nearest_mono ?_
  exact div_le_div₀ tempo.seconds_bounds.1 (Tempo.seconds_antitone hbeats) (by linarith)
    (nearest_natCast_mono hparts)

theorem Fraction.milliseconds_antitone (hparts : fraction.parts ≤ other.parts)
    (hbeats : tempo.beats ≤ faster.beats) :
    other.milliseconds faster ≤ fraction.milliseconds tempo := by
  have hgrid : other.millisecondsOnGrid faster ≤ fraction.millisecondsOnGrid tempo := by
    have hseconds := Fraction.seconds_antitone hparts hbeats
    exact nearest_mono (by linarith)
  have hfloor := Int.floor_mono hgrid
  rw [← Fraction.milliseconds_eq, ← Fraction.milliseconds_eq] at hfloor
  exact_mod_cast hfloor

/-- A greater fraction or a faster tempo never gives a longer note. -/
theorem durationOf_antitone {parts more beats faster : ℕ} (hparts : 0 < parts)
    (hmore : parts ≤ more) (hmoreLt : more < rangeLimit) (hbeats : 0 < beats)
    (hfaster : beats ≤ faster) (hfasterLt : faster < rangeLimit) :
    ∃ longer shorter : ℕ, durationOf (.int parts) (.int beats) = .ok longer ∧
      durationOf (.int more) (.int faster) = .ok shorter ∧ shorter ≤ longer := by
  have hmorePos := hparts.trans_le hmore
  have hfasterPos := hbeats.trans_le hfaster
  refine ⟨Fraction.milliseconds ⟨parts, hparts⟩ ⟨beats, hbeats⟩,
    Fraction.milliseconds ⟨more, hmorePos⟩ ⟨faster, hfasterPos⟩, ?_, ?_, ?_⟩
  · exact durationOf_of_lt ⟨parts, hparts⟩ ⟨beats, hbeats⟩ (hmore.trans_lt hmoreLt)
      (hfaster.trans_lt hfasterLt)
  · exact durationOf_of_lt ⟨more, hmorePos⟩ ⟨faster, hfasterPos⟩ hmoreLt hfasterLt
  · exact Fraction.milliseconds_antitone hmore hfaster

/-- A quarter at 120 and an eighth at 180, where the length is cut off. -/
theorem durationOf_quarter_eighth :
    180 < rangeLimit ∧ durationOf (.int 4) (.int 120) = .ok 500 ∧
      ∃ shorter ≤ 500, durationOf (.int 8) (.int 180) = .ok shorter := by
  have hrange : ∀ {n : ℕ}, n ≤ 2 ^ 8 → n < rangeLimit := lt_rangeLimit (by norm_num)
  have hquarter : durationOf (.int 4) (.int 120) = .ok 500 := eq_ok_of_toOption (by decide +kernel)
  obtain ⟨longer, shorter, hlonger, hshorter, hle⟩ :=
    durationOf_antitone (by norm_num : 0 < 4) (by norm_num : 4 ≤ 8) (hrange (by norm_num))
      (by norm_num : 0 < 120) (by norm_num : 120 ≤ 180) (hrange (by norm_num))
  obtain rfl := Except.ok.inj (hquarter.symm.trans hlonger)
  exact ⟨hrange (by norm_num), hquarter, shorter, hle, hshorter⟩

end Ringtone
