import Ringtone.Duration
import Ringtone.Proofs.Obstacles
import Ringtone.Proofs.Range

/-!
# Lengths of notes

The length of a note is had unless the tempo or the fraction is beyond the range of binary64
numbers. The tempo is looked at first. A tempo that is beyond the range and has too many digits to
be written is another fault.
-/

namespace Ringtone

open Number

/-- The least whole number that has too many digits to be written. -/
def writableLimit : ℕ := 10 ^ 4300

theorem rangeLimit_le_writableLimit : rangeLimit ≤ writableLimit :=
  calc rangeLimit ≤ 2 ^ 1024 := rangeLimit_le
    _ ≤ 10 ^ 1024 := pow_le_pow_left₀ (by norm_num) (by norm_num) _
    _ ≤ 10 ^ 4300 := pow_le_pow_right₀ (by norm_num) (by norm_num)

/-- The numbers below the limit are those that have a numeral. -/
theorem isWritable_natCast_iff {n : ℕ} : Number.isWritable n = true ↔ n < writableLimit := by
  have hpow : ∀ k, Nat.pow 10 k = 10 ^ k := fun _ => rfl
  rw [Number.isWritable, decide_eq_true_eq, Int.natAbs_natCast, hpow, numeralLimit, writableLimit]

theorem value_isWritable_iff {n : ℕ} : (Value.int n).isWritable = true ↔ n < writableLimit := by
  rw [Value.isWritable_int, isWritable_natCast_iff]

/-- A fault about a whole number is kept as long as the number can be written. -/
theorem ofNote_eq {fault : NoteFault} {n : ℕ} (hgiven : fault.given = .int n) :
    Fault.ofNote fault = if n < writableLimit then .note fault else .unwritableNumeral := by
  rw [Fault.ofNote, Fault.ofNoteWithin_int hgiven, ← Value.isWritable_int]
  simp only [value_isWritable_iff]

theorem positive?_natCast {n : ℕ} (h : 0 < n) : (Value.int n).positive? = some ⟨n, h⟩ := by
  simp only [Value.positive?, Int.toNat_natCast, h, dite_true]

theorem positive?_eq_some_iff {value : Value} {n : { n : ℕ // 0 < n }} :
    value.positive? = some n ↔ value = .int n := by
  constructor
  · intro h
    cases value with
    | int m =>
      simp only [Value.positive?] at h
      split_ifs at h with hpos
      rw [← Option.some.inj h, Int.toNat_of_nonneg (by omega)]
    | _ => cases h
  · rintro rfl
    exact positive?_natCast n.2

theorem Tempo.ofValue_eq_ok_iff {value : Value} {tempo : Tempo} :
    Tempo.ofValue value = .ok tempo ↔ value = .int tempo.beats := by
  have hpositive : value.positive? = some ⟨tempo.beats, tempo.beats_pos⟩ ↔
      value = .int tempo.beats := positive?_eq_some_iff
  rw [← hpositive, ofValue, ofValueWithin]
  constructor
  · intro h
    split at h
    · rename_i beats hbeats heq
      cases h
      exact heq
    · cases h
  · intro h
    rw [h]

/-- Whole numbers above zero pass the checks of fraction and tempo, however little room there is for
messages. -/
theorem durationWithin_natCast (levels : ℕ) (fraction : Fraction) (tempo : Tempo) :
    durationWithin levels (.int fraction.parts) (.int tempo.beats) = noteLength fraction tempo := by
  rw [durationWithin, Fraction.ofValueWithin, Tempo.ofValueWithin,
    positive?_natCast fraction.parts_pos, positive?_natCast tempo.beats_pos]
  rfl

theorem durationOf_natCast (fraction : Fraction) (tempo : Tempo) :
    durationOf (.int fraction.parts) (.int tempo.beats) = noteLength fraction tempo := by
  rw [durationOf, durationWithin_natCast]

variable {fraction : Fraction} {tempo : Tempo}

theorem noteLength_eq_ok (htempo : tempo.beats < rangeLimit)
    (hparts : fraction.parts < rangeLimit) :
    noteLength fraction tempo =
      .ok (lengthOnGrid (nearest fraction.parts) (nearest tempo.beats)).toNat := by
  have hbeats := Binary64.gridValue?_eq_some (n := tempo.beats) (by simpa using htempo)
  have hfraction := Binary64.gridValue?_eq_some (n := fraction.parts) (by simpa using hparts)
  rw [noteLength, hbeats]
  dsimp only
  rw [hfraction]
  rfl

theorem noteLength_of_large_tempo (htempo : rangeLimit ≤ tempo.beats) :
    noteLength fraction tempo = .error (.ofNote (.invalidTempo (.int tempo.beats) .tooLarge)) := by
  rw [noteLength, Binary64.gridValue?_eq_none (by simpa using htempo)]

theorem noteLength_of_large_fraction (htempo : tempo.beats < rangeLimit)
    (hparts : rangeLimit ≤ fraction.parts) :
    noteLength fraction tempo =
      .error (.ofNote (.invalidFraction (.int fraction.parts) .tooLarge)) := by
  rw [noteLength, Binary64.gridValue?_eq_some (by simpa using htempo)]
  dsimp only
  rw [Binary64.gridValue?_eq_none (by simpa using hparts)]

end Ringtone
