import Mathlib.Algebra.Order.Ring.Int
import Mathlib.Data.List.Basic
import Ringtone.Sound.Wave

/-!
# Ramps written over ones

A fade is written in three steps: ones, a ramp over the beginning, and the ramp backwards over the
end. As long as there is room for both ramps side by side, each of them meets a stretch of its own
length and neither touches the other, so that every factor can be told from its place alone. A ramp
of a length below zero has no steps, and stands for a stretch that ends as far before the end; it
can be written when nothing is left there.
-/

namespace Ringtone.Sound

/-! ## Writing over a stretch -/

@[simp]
theorem placeOfIndex_natCast (length index : ℕ) : placeOfIndex length index = min index length := by
  rw [placeOfIndex, if_neg (by omega), Int.toNat_natCast]

theorem placeOfIndex_of_neg {length : ℕ} {index : ℤ} (h : index < 0) :
    placeOfIndex length index = (index + length).toNat :=
  if_pos h

section

variable {β : Type} {list values : List β} {length first last : ℕ}

/-- As many values as the stretch is long fill it as they are. -/
theorem filling_of_length_eq (h : values.length = length) : filling length values = .ok values := by
  match values, h with
  | [], h => simp only [filling, h, if_pos]
  | [value], h => rw [filling, ← h]; rfl
  | first :: second :: rest, h => simp only [filling, h, if_pos]

theorem filling_nil (length : ℕ) : filling length ([] : List β) =
    if length = 0 then .ok [] else .error (.fadeMismatch 0 length) := by
  simp only [filling, List.length_nil, eq_comm (a := 0)]

/-- A stretch within a list is written over by as many values; before and behind it the list stays
as it is. -/
theorem overwrite_stretch (hvalues : first + values.length = last) (hlast : last ≤ list.length) :
    overwrite list first last values = .ok (list.take first ++ values ++ list.drop last) := by
  rw [overwrite, placeOfIndex_natCast, placeOfIndex_natCast,
    min_eq_left (show first ≤ list.length by omega), min_eq_left hlast,
    filling_of_length_eq (by omega), Nat.add_sub_cancel' (by omega)]
  rfl

/-- Nothing is written over what ends before the end by a number of elements only when that is
nothing. -/
theorem overwrite_nil_before {before : ℤ} (h : before < 0) :
    overwrite list 0 before [] = if before + list.length ≤ 0 then .ok list
      else .error (.fadeMismatch 0 (before + list.length).toNat) := by
  have hstart : placeOfIndex list.length 0 = 0 := by
    simpa using placeOfIndex_natCast list.length 0
  rw [overwrite, hstart, placeOfIndex_of_neg h, Nat.sub_zero, filling_nil]
  by_cases hempty : before + list.length ≤ 0
  · rw [if_pos (Int.toNat_of_nonpos hempty), if_pos hempty, Int.toNat_of_nonpos hempty]
    rfl
  · rw [if_neg (by omega), if_neg hempty]
    rfl

/-- Nothing is written over what begins behind the end. -/
theorem overwrite_nil_behind {behind : ℤ} (h : (list.length : ℤ) ≤ behind) :
    overwrite list behind list.length [] = .ok list := by
  have hstart : placeOfIndex list.length behind = list.length := by
    rw [placeOfIndex, if_neg (by omega), min_eq_right (by omega)]
  rw [overwrite, hstart, placeOfIndex_natCast, min_self, Nat.sub_self]
  show Except.ok (list.take list.length ++ [] ++ list.drop list.length) = _
  rw [List.append_nil, List.take_append_drop]

end

/-! ## The factors by their places -/

section

variable {α : Type} [SampleNumber α] {count length i : ℕ}

open SampleNumber

/-- The factor at a place: on the ramp at the beginning, on that at the end, or between them. -/
def factor (count length i : ℕ) : α :=
  if i < length then ofNat i / ofNat length
  else if count - length ≤ i then ofNat (count - 1 - i) / ofNat length
  else decimal 1 0

/-- The factors of a fade with two ramps of so many steps. -/
def envelope (count length : ℕ) : List α := (List.range count).map (factor count length)

@[simp]
theorem length_envelope (count length : ℕ) : (envelope count length : List α).length = count := by
  rw [envelope, List.length_map, List.length_range]

theorem getElem?_envelope (length : ℕ) (hi : i < count) :
    (envelope count length : List α)[i]? = some (factor count length i) := by
  rw [envelope, List.getElem?_map, List.getElem?_range hi, Option.map_some]

@[simp]
theorem length_ramp (length : ℕ) : (ramp length : List α).length = length := by
  rw [ramp, List.length_map, List.length_range]

theorem getElem?_ramp (hi : i < length) :
    (ramp length : List α)[i]? = some (ofNat i / ofNat length) := by
  rw [ramp, List.getElem?_map, List.getElem?_range hi, Option.map_some]

/-- A fade without a ramp is ones. -/
theorem envelope_zero (count : ℕ) :
    (envelope count 0 : List α) = List.replicate count (decimal 1 0) := by
  refine List.eq_replicate_iff.mpr ⟨length_envelope count 0, fun x hx => ?_⟩
  obtain ⟨i, hi, rfl⟩ := List.mem_map.mp hx
  have hi := List.mem_range.mp hi
  rw [factor, if_neg (Nat.not_lt_zero i), if_neg (by omega)]

/-- Two ramps beside each other, with ones between them. -/
theorem ramps_around_ones (hapart : 2 * length ≤ count) :
    (ramp length ++ List.replicate (count - 2 * length) (decimal 1 0) ++ (ramp length).reverse :
      List α) = envelope count length := by
  have hramp : (ramp length : List α).length = length := length_ramp length
  have hbefore : (ramp length ++ List.replicate (count - 2 * length) (decimal 1 0) :
      List α).length = count - length := by
    rw [List.length_append, hramp, List.length_replicate]
    omega
  refine List.ext_getElem? fun i => ?_
  by_cases hrise : i < length
  · rw [List.getElem?_append_left (by omega), List.getElem?_append_left (by omega),
      getElem?_ramp hrise, getElem?_envelope length (by omega), factor, if_pos hrise]
  · by_cases hfull : i < count - length
    · rw [List.getElem?_append_left (by omega), List.getElem?_append_right (by omega), hramp,
        List.getElem?_replicate, if_pos (by omega), getElem?_envelope length (by omega), factor,
        if_neg hrise, if_neg (by omega)]
    · rw [List.getElem?_append_right (by omega), hbefore]
      by_cases hi : i < count
      · rw [List.getElem?_reverse (by omega), hramp, getElem?_ramp (by omega),
          getElem?_envelope length hi, factor, if_neg hrise, if_pos (by omega)]
        congr 3
        omega
      · rw [List.getElem?_eq_none (by rw [List.length_reverse, hramp]; omega),
          List.getElem?_eq_none (by rw [length_envelope]; omega)]

/-- Where the ramps have room beside each other, the fade can be written and has the factors of
their places. -/
theorem fade_natCast (hapart : 2 * length ≤ count) :
    (fade count length : Except Fault (List α)) = .ok (envelope count length) := by
  rcases Nat.eq_zero_or_pos length with rfl | hpos
  · rw [fade, envelope_zero]
    rfl
  · have hramp : (ramp length : List α).length = length := length_ramp length
    have hrising : overwrite (List.replicate count (decimal 1 0 : α)) 0 length (ramp length) =
        .ok (ramp length ++ List.replicate (count - length) (decimal 1 0)) := by
      have hroom : length ≤ (List.replicate count (decimal 1 0 : α)).length := by
        rw [List.length_replicate]
        omega
      have hwritten := overwrite_stretch
        (show 0 + (ramp length : List α).length = length by omega) hroom
      rwa [List.take_zero, List.nil_append, List.drop_replicate] at hwritten
    have hfalling : overwrite (ramp length ++ List.replicate (count - length) (decimal 1 0 : α))
        (count - length : ℕ) count (ramp length).reverse = .ok (envelope count length) := by
      have hlength : (ramp length ++ List.replicate (count - length) (decimal 1 0 : α)).length =
          count := by
        rw [List.length_append, hramp, List.length_replicate]
        omega
      rw [overwrite_stretch (by rw [List.length_reverse]; omega) hlength.ge,
        List.drop_eq_nil_of_le hlength.le, List.append_nil, List.take_append, hramp,
        List.take_of_length_le (by omega), List.take_replicate, min_eq_left (by omega),
        show count - length - length = count - 2 * length by omega, ramps_around_ones hapart]
    rw [fade, if_neg (by omega), Int.toNat_natCast]
    show Except.bind (overwrite _ 0 _ _) _ = _
    rw [hrising]
    show overwrite _ ((count : ℤ) - length) count _ = _
    rw [← Nat.cast_sub (by omega), hfalling]

/-- A faded sine wave is a product at each place. -/
theorem wave_sine_eq_map (frequency rate : α) (count length : ℕ) :
    wave .sine frequency rate count (envelope count length) =
      (List.range count).map fun i => factor count length i * sineSample frequency rate i := by
  rw [wave, envelope, List.zipWith_map, List.zipWith_self]

/-- A wave with the factors of its fade has as many samples as it is asked for. -/
@[simp]
theorem length_wave (style : Style) (frequency rate : α) (count length : ℕ) :
    (wave style frequency rate count (envelope count length)).length = count := by
  cases style with
  | sine => rw [wave_sine_eq_map, List.length_map, List.length_range]
  | square | bell => rw [wave, List.length_map, List.length_range]

/-- The number of steps of a fade whose length is a whole number. -/
def stepsOf (count : ℕ) (length : ℤ) : Except Fault ℕ :=
  if 0 ≤ length then .ok length.toNat
  else if length + count ≤ 0 then .ok 0
  else .error (.fadeMismatch 0 (length + count).toNat)

/-- No steps are written over a stretch only when it is empty. -/
theorem fade_of_neg {length : ℤ} (h : length < 0) :
    (fade count length : Except Fault (List α)) =
      if length + count ≤ 0 then .ok (envelope count 0)
      else .error (.fadeMismatch 0 (length + count).toNat) := by
  have hsteps : (ramp length.toNat : List α) = [] := by rw [Int.toNat_of_nonpos h.le]; rfl
  have hlength : (List.replicate count (decimal 1 0 : α)).length = count := List.length_replicate
  rw [fade, if_neg h.ne, hsteps, envelope_zero]
  show Except.bind (overwrite _ 0 length []) (overwrite · (count - length) count []) = _
  rw [overwrite_nil_before h, hlength]
  split_ifs with hempty
  · have hbehind : ((List.replicate count (decimal 1 0 : α)).length : ℤ) ≤ count - length := by
      omega
    have hwritten := overwrite_nil_behind hbehind
    rwa [hlength] at hwritten
  · rfl

/-- A fade of at most half of the factors is written exactly when it has a number of steps. -/
theorem fade_eq_stepsOf {length : ℤ} (hapart : length ≤ (count / 2 : ℕ)) :
    (fade count length : Except Fault (List α)) = envelope count <$> stepsOf count length := by
  rcases le_or_gt 0 length with hpos | hneg
  · obtain ⟨n, rfl⟩ := Int.eq_ofNat_of_zero_le hpos
    have hhalf : n ≤ count / 2 := by exact_mod_cast hapart
    rw [fade_natCast (by omega), stepsOf, if_pos hpos, Int.toNat_natCast]
    rfl
  · rw [fade_of_neg hneg, stepsOf, if_neg (not_le.mpr hneg)]
    split_ifs <;> rfl

end

end Ringtone.Sound
