import Mathlib.Data.List.TakeWhile
import Ringtone.Note
import Ringtone.Proofs.Numerals
import Ringtone.Proofs.Obstacles
import Ringtone.Proofs.Points

/-!
# The grammar of notes

A note is written as zeros, the numeral of its fraction and the name of its pitch. Reading accepts
these texts and no others, and what it says of another text depends on the digits at its beginning
first and on the rest only when the digits are those of a fraction.
-/

namespace Ringtone

open Number Text

/-! ## Names of pitches -/

/-- The names of pitches: a letter, a sharp sign behind some letters, and the octave. -/
inductive IsPitchName : List Char → Prop
  /-- A letter and the octave. -/
  | natural {letter octave : Char} (hletter : 'a' ≤ letter ∧ letter ≤ 'g')
      (hoctave : '0' ≤ octave ∧ octave ≤ '8') : IsPitchName [letter, octave]
  /-- A letter that can be raised, the sharp sign and the octave. -/
  | sharp {letter octave : Char} (hletter : letter ∈ ['c', 'd', 'f', 'g', 'a'])
      (hoctave : '0' ≤ octave ∧ octave ≤ '8') : IsPitchName [letter, '#', octave]

namespace Pitch

theorem mem_all (pitch : Pitch) : pitch ∈ all := by
  obtain ⟨octave, name⟩ := pitch
  simp only [all, List.mem_flatMap, List.mem_finRange, true_and, List.mem_map]
  exact ⟨octave, name, by cases name <;> decide, rfl⟩

theorem ofKey?_key (pitch : Pitch) : ofKey? pitch.key = some pitch := by
  have hall : ∀ p ∈ all, ofKey? p.key = some p := by decide +kernel
  exact hall pitch pitch.mem_all

theorem ofKey?_eq_some_iff {key : List Char} {pitch : Pitch} :
    ofKey? key = some pitch ↔ pitch.key = key := by
  constructor
  · intro h
    exact of_decide_eq_true (List.find?_some (p := fun p : Pitch => decide (p.key = key)) h)
  · rintro rfl
    exact ofKey?_key pitch

theorem key_injective {p q : Pitch} (h : p.key = q.key) : p = q :=
  Option.some.inj ((ofKey?_key p).symm.trans (h ▸ ofKey?_key q))

theorem ofValue_key (pitch : Pitch) : ofValue (.ofChars pitch.key) = .ok pitch := by
  have hnamed : (Points.toChars? (Points.ofChars pitch.key)).bind ofKey? = some pitch := by
    rw [Points.toChars?_ofChars]
    exact ofKey?_key pitch
  simp only [ofValue, Value.ofChars, hnamed]

theorem frequencyOf_key (pitch : Pitch) (tuning : Value) :
    frequencyOf (.ofChars pitch.key) tuning =
      (do ofNumber (pitch.frequency (← tuning.quantity))) := by
  rw [frequencyOf, ofValue_key]
  rfl

/-- The letters of names are those of the natural notes. -/
theorem exists_name_of_letter {letter : Char} (h : 'a' ≤ letter ∧ letter ≤ 'g') :
    ∃ name : NoteName, name.text = [letter] := by
  obtain ⟨hlow, hhigh⟩ := h
  rw [Char.le_def, UInt32.le_iff_toNat_le] at hlow hhigh
  change 97 ≤ letter.toNat at hlow
  change letter.toNat ≤ 103 at hhigh
  rw [← Char.ofNat_toNat letter]
  generalize letter.toNat = n at *
  interval_cases n
  exacts [⟨.a, rfl⟩, ⟨.b, rfl⟩, ⟨.c, rfl⟩, ⟨.d, rfl⟩, ⟨.e, rfl⟩, ⟨.f, rfl⟩, ⟨.g, rfl⟩]

theorem exists_name_of_sharp {letter : Char} (h : letter ∈ ['c', 'd', 'f', 'g', 'a']) :
    ∃ name : NoteName, name.text = [letter, '#'] := by
  simp only [List.mem_cons, List.not_mem_nil, or_false] at h
  rcases h with rfl | rfl | rfl | rfl | rfl
  exacts [⟨.cSharp, rfl⟩, ⟨.dSharp, rfl⟩, ⟨.fSharp, rfl⟩, ⟨.gSharp, rfl⟩, ⟨.aSharp, rfl⟩]

theorem exists_octave {octave : Char} (h : '0' ≤ octave ∧ octave ≤ '8') :
    ∃ n : Fin 9, Nat.digitChar n = octave := by
  obtain ⟨hlow, hhigh⟩ := h
  have hdigit : isAsciiDigit octave := by
    simp only [isAsciiDigit, Bool.and_eq_true, decide_eq_true_eq]
    exact ⟨hlow, Char.le_trans hhigh (by decide)⟩
  rw [Char.le_def, UInt32.le_iff_toNat_le] at hhigh
  change octave.toNat ≤ 56 at hhigh
  refine ⟨⟨octave.toNat - 48, by omega⟩, (digitChar_of_isAsciiDigit hdigit).2⟩

/-- The names of pitches are the keys of the table. -/
theorem isPitchName_iff {key : List Char} : IsPitchName key ↔ ∃ pitch : Pitch, pitch.key = key := by
  constructor
  · intro h
    cases h with
    | natural hletter hoctave =>
      obtain ⟨name, hname⟩ := exists_name_of_letter hletter
      obtain ⟨octave, hdigit⟩ := exists_octave hoctave
      exact ⟨⟨octave, name⟩, by simp [key, hname, hdigit]⟩
    | sharp hletter hoctave =>
      obtain ⟨name, hname⟩ := exists_name_of_sharp hletter
      obtain ⟨octave, hdigit⟩ := exists_octave hoctave
      exact ⟨⟨octave, name⟩, by simp [key, hname, hdigit]⟩
  · rintro ⟨⟨octave, name⟩, rfl⟩
    have hoctave : '0' ≤ Nat.digitChar octave ∧ Nat.digitChar octave ≤ '8' := by
      revert octave; decide
    cases name
    case c | d | e | f | g | a | b => exact .natural (by decide) hoctave
    case cSharp | dSharp | fSharp | gSharp | aSharp => exact .sharp (by decide) hoctave

/-- A name of a pitch does not begin with a digit. -/
theorem not_isAsciiDigit_head?_key (pitch : Pitch) : ∀ c ∈ pitch.key.head?, ¬ isAsciiDigit c := by
  obtain ⟨octave, name⟩ := pitch
  cases name <;> simp [key, NoteName.text, isAsciiDigit]

end Pitch

/-! ## The digits of a note -/

/-- The digits that a text begins with, all of them, and the rest of the text. -/
structure LeadingDigits (text digits rest : List Char) : Prop where
  text_eq : text = digits ++ rest
  all_digits : ∀ c ∈ digits, isAsciiDigit c
  rest_head : ∀ c ∈ rest.head?, ¬ isAsciiDigit c

namespace LeadingDigits

variable {text digits rest : List Char}

theorem exists_split (text : List Char) :
    LeadingDigits text (text.takeWhile isAsciiDigit) (text.dropWhile isAsciiDigit) where
  text_eq := List.takeWhile_append_dropWhile.symm
  all_digits := fun c hc => List.mem_takeWhile_imp hc
  rest_head := by
    intro c hc
    have := List.head?_dropWhile_not isAsciiDigit text
    rw [Option.mem_def.mp hc] at this
    simpa using this

theorem takeWhile_eq (h : LeadingDigits text digits rest) :
    text.takeWhile isAsciiDigit = digits := by
  rw [h.text_eq, List.takeWhile_append_of_pos h.all_digits]
  cases rest with
  | nil => simp
  | cons c rest => rw [List.takeWhile_cons_of_neg (h.rest_head c rfl), List.append_nil]

theorem dropWhile_eq (h : LeadingDigits text digits rest) :
    text.dropWhile isAsciiDigit = rest := by
  rw [h.text_eq, List.dropWhile_append_of_pos h.all_digits]
  cases rest with
  | nil => rfl
  | cons c rest => rw [List.dropWhile_cons_of_neg (h.rest_head c rfl)]

/-- A split that is computed. -/
theorem of_eq (hdigits : text.takeWhile isAsciiDigit = digits)
    (hrest : text.dropWhile isAsciiDigit = rest) : LeadingDigits text digits rest := by
  rw [← hdigits, ← hrest]
  exact exists_split text

theorem unique {digits' rest' : List Char} (h : LeadingDigits text digits rest)
    (h' : LeadingDigits text digits' rest') : digits = digits' ∧ rest = rest' :=
  ⟨h.takeWhile_eq.symm.trans h'.takeWhile_eq, h.dropWhile_eq.symm.trans h'.dropWhile_eq⟩

/-- Zeros in front change nothing but the number of digits. -/
theorem zeros (h : LeadingDigits text digits rest) (k : ℕ) :
    LeadingDigits (List.replicate k '0' ++ text) (List.replicate k '0' ++ digits) rest where
  text_eq := by rw [h.text_eq, List.append_assoc]
  all_digits := by
    intro c hc
    rcases List.mem_append.mp hc with hzero | hdigit
    · rw [List.eq_of_mem_replicate hzero]; rfl
    · exact h.all_digits c hdigit
  rest_head := h.rest_head

end LeadingDigits

namespace Note

/-- The note is what a text says: its digits are a fraction, and the name of a pitch follows. -/
def IsWritten (note : Note) (text : List Char) : Prop :=
  ∃ digits, LeadingDigits text digits note.pitch.key ∧ digits.length ≤ 4300 ∧
    ofDecimalDigits digits = note.fraction.parts

/-- What is wrong with a text of some digits and a rest. The rest counts only behind the digits of a
fraction. -/
inductive Flaw (digits rest : List Char) : NoteFault → Prop
  /-- There are no digits. -/
  | noDigits (h : digits = []) : Flaw digits rest (.invalidFraction (.ofChars []) .notPositive)
  /-- There are too many digits. -/
  | tooLong (h : 4300 < digits.length) :
    Flaw digits rest (.invalidFraction (.ofChars digits) .tooLong)
  /-- The digits denote zero. -/
  | zero (hne : digits ≠ []) (hlength : digits.length ≤ 4300) (h : ofDecimalDigits digits = 0) :
    Flaw digits rest (.invalidFraction (.int 0) .notPositive)
  /-- The rest names no pitch. -/
  | noPitch (hlength : digits.length ≤ 4300) (hpos : 0 < ofDecimalDigits digits)
      (h : ¬ IsPitchName rest) : Flaw digits rest (.unknownPitch (.ofChars rest))

theorem readFraction_eq_ok {digits : List Char} (hlength : digits.length ≤ 4300)
    (hpos : 0 < ofDecimalDigits digits) :
    readFraction digits = .ok ⟨ofDecimalDigits digits, hpos⟩ := by
  have hne : digits ≠ [] := by rintro rfl; exact absurd hpos (by decide)
  rw [readFraction, if_neg hne, if_neg (by rw [numeralLimit]; omega)]
  exact dif_pos hpos

/-- Reading a text comes to looking at its digits, and then at the rest. -/
theorem parse_eq {text digits rest : List Char} (h : LeadingDigits text digits rest) :
    parse text = (readFraction digits).bind fun fraction =>
      match Pitch.ofKey? rest with
      | some pitch => .ok { fraction, pitch }
      | none => .error (.unknownPitch (.ofChars rest)) := by
  rw [parse, h.takeWhile_eq, h.dropWhile_eq]
  rfl

theorem parse_of_isWritten {note : Note} {text : List Char} (h : note.IsWritten text) :
    parse text = .ok note := by
  obtain ⟨digits, hsplit, hlength, hvalue⟩ := h
  obtain ⟨⟨parts, hpos⟩, pitch⟩ := note
  subst hvalue
  rw [parse_eq hsplit, readFraction_eq_ok hlength hpos]
  simp only [Except.bind, Pitch.ofKey?_key]

theorem parse_of_flaw {text digits rest : List Char} {cause : NoteFault}
    (h : LeadingDigits text digits rest) (hflaw : Flaw digits rest cause) :
    parse text = .error cause := by
  rw [parse_eq h]
  cases hflaw with
  | noDigits hnone => rw [readFraction, if_pos hnone]; rfl
  | tooLong hlong =>
    have hne : digits ≠ [] := by rintro rfl; exact absurd hlong (by simp)
    rw [readFraction, if_neg hne, if_pos (by rw [numeralLimit]; exact hlong)]; rfl
  | zero hne hlength hzero =>
    rw [readFraction, if_neg hne, if_neg (by rw [numeralLimit]; omega)]
    simp only [hzero, lt_irrefl, dite_false]
    rfl
  | noPitch hlength hpos hname =>
    have hnone : Pitch.ofKey? rest = none := by
      rw [Option.eq_none_iff_forall_ne_some]
      intro pitch hpitch
      exact hname (Pitch.isPitchName_iff.mpr ⟨pitch, Pitch.ofKey?_eq_some_iff.mp hpitch⟩)
    rw [readFraction_eq_ok hlength hpos]
    simp only [Except.bind, hnone]

/-- No note is written with the character that escapes begin with. -/
theorem IsWritten.notMem_backslash {note : Note} {token : List Char}
    (h : note.IsWritten token) : '\\' ∉ token := by
  obtain ⟨digits, hsplit, _⟩ := h
  have hkeys : ∀ pitch ∈ Pitch.all, '\\' ∉ pitch.key := by decide
  rw [hsplit.text_eq, List.mem_append, not_or]
  exact ⟨fun hmem => absurd (hsplit.all_digits _ hmem) (by decide),
    hkeys _ (Pitch.mem_all note.pitch)⟩

/-- Every text is written for a note or has a flaw. -/
theorem isWritten_or_flaw {text digits rest : List Char} (h : LeadingDigits text digits rest) :
    (∃ note : Note, note.IsWritten text) ∨ ∃ cause, Flaw digits rest cause := by
  by_cases hne : digits = []
  · exact Or.inr ⟨_, .noDigits hne⟩
  by_cases hlong : 4300 < digits.length
  · exact Or.inr ⟨_, .tooLong hlong⟩
  rw [not_lt] at hlong
  rcases Nat.eq_zero_or_pos (ofDecimalDigits digits) with hzero | hpos
  · exact Or.inr ⟨_, .zero hne hlong hzero⟩
  by_cases hname : IsPitchName rest
  · obtain ⟨pitch, rfl⟩ := Pitch.isPitchName_iff.mp hname
    exact Or.inl ⟨⟨⟨_, hpos⟩, pitch⟩, digits, h, hlong, rfl⟩
  · exact Or.inr ⟨_, .noPitch hlong hpos hname⟩

theorem parse_eq_ok_iff {text : List Char} {note : Note} :
    parse text = .ok note ↔ note.IsWritten text := by
  refine ⟨fun h => ?_, parse_of_isWritten⟩
  rcases isWritten_or_flaw (LeadingDigits.exists_split text) with ⟨other, hother⟩ | ⟨cause, hflaw⟩
  · rw [parse_of_isWritten hother] at h
    cases h
    exact hother
  · rw [parse_of_flaw (LeadingDigits.exists_split text) hflaw] at h
    cases h

theorem parse_eq_error_iff {text digits rest : List Char} {cause : NoteFault}
    (h : LeadingDigits text digits rest) :
    parse text = .error cause ↔ Flaw digits rest cause := by
  refine ⟨fun hparse => ?_, parse_of_flaw h⟩
  rcases isWritten_or_flaw h with ⟨note, hnote⟩ | ⟨other, hflaw⟩
  · rw [parse_of_isWritten hnote] at hparse
    cases hparse
  · rw [parse_of_flaw h hflaw] at hparse
    cases hparse
    exact hflaw

/-! ## Spellings -/

/-- The text spells a fraction and a name: zeros, the numeral of the fraction and the name of a
pitch, with at most 4300 digits in all. -/
structure Spells (text : List Char) (parts : ℕ) (name : List Char) : Prop where
  parts_pos : 1 ≤ parts
  isPitchName : IsPitchName name
  text_eq : ∃ zeros, text = List.replicate zeros '0' ++ decimalDigits parts ++ name ∧
    zeros + (decimalDigits parts).length ≤ 4300

theorem leadingDigits_numeral (zeros parts : ℕ) (pitch : Pitch) :
    LeadingDigits (List.replicate zeros '0' ++ decimalDigits parts ++ pitch.key)
      (List.replicate zeros '0' ++ decimalDigits parts) pitch.key where
  text_eq := rfl
  all_digits := by
    intro c hc
    rcases List.mem_append.mp hc with hzero | hdigit
    · rw [List.eq_of_mem_replicate hzero]; rfl
    · exact isAsciiDigit_of_mem_decimalDigits hdigit
  rest_head := pitch.not_isAsciiDigit_head?_key

theorem isWritten_iff_spells {note : Note} {text : List Char} :
    note.IsWritten text ↔ Spells text note.fraction.parts note.pitch.key := by
  constructor
  · rintro ⟨digits, hsplit, hlength, hvalue⟩
    refine ⟨note.fraction.parts_pos, Pitch.isPitchName_iff.mpr ⟨_, rfl⟩, ?_⟩
    rcases eq_zeros_append hsplit.all_digits with ⟨k, _, hzero⟩ | ⟨k, hk, _⟩
    · have := note.fraction.parts_pos
      omega
    · rw [hvalue] at hk
      refine ⟨k, by rw [hsplit.text_eq, ← hk], ?_⟩
      rw [hk, List.length_append, List.length_replicate] at hlength
      exact hlength
  · rintro ⟨_, _, zeros, rfl, hlength⟩
    refine ⟨_, leadingDigits_numeral zeros note.fraction.parts note.pitch, ?_, ?_⟩
    · rwa [List.length_append, List.length_replicate]
    · rw [ofDecimalDigits_zeros_append, ofDecimalDigits_decimalDigits]

theorem spells_iff {text name : List Char} {parts : ℕ} :
    Spells text parts name ↔ ∃ note : Note, parse text = .ok note ∧
      note.fraction.parts = parts ∧ note.pitch.key = name := by
  constructor
  · intro h
    obtain ⟨pitch, rfl⟩ := Pitch.isPitchName_iff.mp h.isPitchName
    have hwritten : IsWritten ⟨⟨parts, h.parts_pos⟩, pitch⟩ text := isWritten_iff_spells.mpr h
    exact ⟨_, parse_eq_ok_iff.mpr hwritten, rfl, rfl⟩
  · rintro ⟨note, hparse, rfl, rfl⟩
    exact isWritten_iff_spells.mp (parse_eq_ok_iff.mp hparse)

theorem Spells.unique {text name name' : List Char} {parts parts' : ℕ} (h : Spells text parts name)
    (h' : Spells text parts' name') : parts = parts' ∧ name = name' := by
  obtain ⟨note, hparse, rfl, rfl⟩ := spells_iff.mp h
  obtain ⟨other, hother, rfl, rfl⟩ := spells_iff.mp h'
  rw [hparse] at hother
  cases hother
  exact ⟨rfl, rfl⟩

theorem IsWritten.of_zeros {note other : Note} {text : List Char} {k l : ℕ}
    (h : note.IsWritten (List.replicate k '0' ++ text))
    (h' : other.IsWritten (List.replicate l '0' ++ text)) : note = other := by
  obtain ⟨digits, hsplit, _, hvalue⟩ := h
  obtain ⟨digits', hsplit', _, hvalue'⟩ := h'
  have hcore := LeadingDigits.exists_split text
  obtain ⟨rfl, hrest⟩ := hsplit.unique (hcore.zeros k)
  obtain ⟨rfl, hrest'⟩ := hsplit'.unique (hcore.zeros l)
  rw [ofDecimalDigits_zeros_append] at hvalue hvalue'
  obtain ⟨⟨parts, _⟩, pitch⟩ := note
  obtain ⟨⟨parts', _⟩, pitch'⟩ := other
  obtain rfl : parts = parts' := hvalue.symm.trans hvalue'
  obtain rfl : pitch = pitch' := Pitch.key_injective (hrest.trans hrest'.symm)
  rfl

/-! ## Reading -/

theorem ofNote_of_flaw {digits rest : List Char} {cause : NoteFault} (h : Flaw digits rest cause) :
    Fault.ofNote cause = .note cause := by
  refine Fault.ofNote_of_isWritable ?_
  cases h with
  | zero => rw [NoteFault.given, Value.isWritable_int]; simp [Number.isWritable]
  | _ => rfl

theorem ofValue_ofChars (text : List Char) :
    Note.ofValue (.ofChars text) = (parse text).mapError Fault.ofNote := by
  rw [ofValue, Value.ofChars, Value.chars, Points.toChars_ofChars]
  rfl

/-- Reading a note accepts exactly the spellings, and each of them is that of one fraction and one
name. Two texts are read alike when they differ in leading zeros only. Any other text is refused
because of its digits, or else because of what follows them. -/
theorem ofValue_exact (text : List Char) :
    (∀ parts name, Spells text parts name ↔ ∃ note : Note,
      Note.ofValue (.ofChars text) = .ok note ∧ note.fraction.parts = parts ∧
        note.pitch.key = name) ∧
    (∀ parts name parts' name', Spells text parts name → Spells text parts' name' →
      parts = parts' ∧ name = name') ∧
    (∀ other note note', Note.ofValue (.ofChars text) = .ok note →
      Note.ofValue (.ofChars other) = .ok note' →
      (note = note' ↔ ∃ k l core, text = List.replicate k '0' ++ core ∧
        other = List.replicate l '0' ++ core)) ∧
    (∀ fault, Note.ofValue (.ofChars text) = .error fault ↔ ∃ digits rest cause,
      LeadingDigits text digits rest ∧ Flaw digits rest cause ∧ fault = .note cause) := by
  have hok : ∀ text note, Note.ofValue (.ofChars text) = .ok note ↔ parse text = .ok note := by
    intro text note
    rw [ofValue_ofChars]
    cases parse text <;> simp [Except.mapError]
  refine ⟨?_, fun _ _ _ _ => Spells.unique, ?_, ?_⟩
  · intro parts name
    simp only [hok, spells_iff]
  · intro other note note' hnote hnote'
    rw [hok, parse_eq_ok_iff] at hnote hnote'
    constructor
    · rintro rfl
      obtain ⟨k, hk, _⟩ := (isWritten_iff_spells.mp hnote).text_eq
      obtain ⟨l, hl, _⟩ := (isWritten_iff_spells.mp hnote').text_eq
      rw [List.append_assoc] at hk hl
      exact ⟨k, l, _, hk, hl⟩
    · rintro ⟨k, l, core, rfl, rfl⟩
      exact hnote.of_zeros hnote'
  · intro fault
    have hsplit := LeadingDigits.exists_split text
    rw [ofValue_ofChars]
    constructor
    · intro h
      cases hparse : parse text with
      | ok note => rw [hparse] at h; cases h
      | error cause =>
        have hflaw := (parse_eq_error_iff hsplit).mp hparse
        rw [hparse, Except.mapError, ofNote_of_flaw hflaw] at h
        cases h
        exact ⟨_, _, cause, hsplit, hflaw, rfl⟩
    · rintro ⟨digits, rest, cause, hdigits, hflaw, rfl⟩
      rw [(parse_eq_error_iff hdigits).mpr hflaw, Except.mapError, ofNote_of_flaw hflaw]

end Note

end Ringtone
