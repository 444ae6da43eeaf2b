import Ringtone.Json.Printer
import Ringtone.Json.Token
import Ringtone.Proofs.Decimals

/-!
# Numbers in JSON texts

A number is digits, places behind a point and an exponent, and it is scanned as far as these go.
What is printed for a whole number or for a binary64 number is of that form, so that scanning it
gives the number back.
-/

namespace Ringtone.Json

open Number Text

/-! ## The parts of a number -/

/-- The point and the places behind it. -/
def placesPart : List Char → List Char
  | [] => []
  | places => '.' :: places

/-- The mark, the sign and the digits of an exponent. -/
def exponentPart : Option (Bool × List Char) → List Char
  | none => []
  | some (negative, digits) => 'e' :: (if negative then '-' else '+') :: digits

/-- The text does not go on with a number. -/
def EndsNumber (rest : List Char) : Prop :=
  ∀ c ∈ rest.head?, isAsciiDigit c = false ∧ c ≠ '.' ∧ c ≠ 'e' ∧ c ≠ 'E'

theorem takeWhile_eq_nil {p : Char → Bool} {text : List Char}
    (h : ∀ c ∈ text.head?, p c = false) : text.takeWhile p = [] := by
  cases text with
  | nil => rfl
  | cons c rest => exact List.takeWhile_cons_of_neg (by simp [h c rfl])

theorem takeWhile_digits_append {digits rest : List Char} (hdigits : ∀ c ∈ digits, isAsciiDigit c)
    (hrest : ∀ c ∈ rest.head?, isAsciiDigit c = false) :
    (digits ++ rest).takeWhile isAsciiDigit = digits := by
  rw [List.takeWhile_append_of_pos hdigits, takeWhile_eq_nil hrest, List.append_nil]

section Scanning

variable {whole places rest : List Char} {exponent : Option (Bool × List Char)}

theorem scanPlaces_eq (hplaces : ∀ c ∈ places, isAsciiDigit c)
    (hrest : ∀ c ∈ rest.head?, isAsciiDigit c = false ∧ c ≠ '.') :
    scanPlaces (placesPart places ++ rest) = places := by
  cases places with
  | cons c places =>
    exact takeWhile_digits_append hplaces fun c hc => (hrest c hc).1
  | nil =>
    cases rest with
    | nil => rfl
    | cons c rest =>
      have hc := (hrest c rfl).2
      simp [scanPlaces, placesPart, hc]

theorem scanExponent_eq (hexponent : ∀ e ∈ exponent, e.2 ≠ [] ∧ ∀ c ∈ e.2, isAsciiDigit c)
    (hrest : EndsNumber rest) :
    scanExponent (exponentPart exponent ++ rest) =
      exponent.map fun e => (e.1, e.2, (exponentPart exponent).length) := by
  cases exponent with
  | none =>
    cases rest with
    | nil => rfl
    | cons c rest =>
      obtain ⟨_, _, hlower, hupper⟩ := hrest c rfl
      simp [scanExponent, exponentPart, hlower, hupper]
  | some e =>
    obtain ⟨negative, digits⟩ := e
    obtain ⟨hne, hdigits⟩ := hexponent _ rfl
    dsimp only at hne hdigits
    have htake : (digits ++ rest).takeWhile isAsciiDigit = digits :=
      takeWhile_digits_append hdigits fun c hc => (hrest c hc).1
    cases negative <;>
      simp [scanExponent, exponentPart, htake, hne] <;> omega

theorem not_digit_head_tail (hrest : EndsNumber rest) :
    ∀ c ∈ (placesPart places ++ (exponentPart exponent ++ rest)).head?, isAsciiDigit c = false := by
  intro c hc
  cases places with
  | cons _ _ => cases hc; rfl
  | nil =>
    cases exponent with
    | none => exact (hrest c hc).1
    | some e => cases hc; rfl

theorem not_point_head_exponent (hrest : EndsNumber rest) :
    ∀ c ∈ (exponentPart exponent ++ rest).head?, isAsciiDigit c = false ∧ c ≠ '.' := by
  intro c hc
  cases exponent with
  | none => exact ⟨(hrest c hc).1, (hrest c hc).2.1⟩
  | some e => cases hc; exact ⟨rfl, by decide⟩

theorem length_placesPart : (placesPart places).length =
    if places = [] then 0 else 1 + places.length := by
  cases places with
  | nil => rfl
  | cons c places => simp [placesPart]; omega

/-- The number without a sign whose digits before the point are known. -/
def numberAfter (whole text : List Char) : Option NumberText :=
  if whole = [] then none
  else
    let rest := text.drop whole.length
    let places := scanPlaces rest
    let pointed := if places = [] then 0 else 1 + places.length
    let exponent := scanExponent (rest.drop pointed)
    some
      { negative := false
        whole
        places
        exponent := exponent.map fun (negative, digits, _) => (negative, digits)
        length := whole.length + pointed + (exponent.map (·.2.2)).getD 0 }

theorem scanUnsigned_eq_numberAfter {c : Char} (more : List Char) :
    scanUnsigned (c :: more) =
      numberAfter (if c = '0' then ['0'] else (c :: more).takeWhile isAsciiDigit) (c :: more) := by
  split_ifs with hc
  · rw [hc]
    rfl
  · unfold scanUnsigned
    split
    · rename_i heq
      exact absurd (List.cons.inj heq).1 hc
    · rfl

/-- A number without a sign is scanned up to its end. A zero in front is all of the digits. -/
theorem scanUnsigned_eq (hne : whole ≠ []) (hwhole : ∀ c ∈ whole, isAsciiDigit c)
    (hzero : whole.head? = some '0' → whole = ['0'])
    (hplaces : ∀ c ∈ places, isAsciiDigit c)
    (hexponent : ∀ e ∈ exponent, e.2 ≠ [] ∧ ∀ c ∈ e.2, isAsciiDigit c) (hrest : EndsNumber rest) :
    scanUnsigned (whole ++ (placesPart places ++ (exponentPart exponent ++ rest))) =
      some
        { negative := false, whole, places, exponent
          length := whole.length + (placesPart places).length + (exponentPart exponent).length } := by
  have hdigits : scanUnsigned (whole ++ (placesPart places ++ (exponentPart exponent ++ rest))) =
      numberAfter whole (whole ++ (placesPart places ++ (exponentPart exponent ++ rest))) := by
    have htake : (whole ++ (placesPart places ++ (exponentPart exponent ++ rest))).takeWhile
        isAsciiDigit = whole := takeWhile_digits_append hwhole (not_digit_head_tail hrest)
    cases whole with
    | nil => exact absurd rfl hne
    | cons c more =>
      rw [List.cons_append, scanUnsigned_eq_numberAfter]
      split_ifs with hc
      · rw [hc] at hzero
        rw [hc, (List.cons.inj (hzero rfl)).2]
      · rw [← List.cons_append, htake]
  have hdrop : (placesPart places ++ (exponentPart exponent ++ rest)).drop
      (if places = [] then 0 else 1 + places.length) = exponentPart exponent ++ rest := by
    rw [← length_placesPart, List.drop_left]
  rw [hdigits]
  simp only [numberAfter, hne, if_false, List.drop_left,
    scanPlaces_eq hplaces (not_point_head_exponent hrest), hdrop, scanExponent_eq hexponent hrest,
    length_placesPart]
  cases exponent <;> simp [exponentPart]

end Scanning

/-! ## Numbers as tokens -/

/-- The number as it is written. -/
def NumberText.text (n : NumberText) : List Char :=
  (if n.negative then ['-'] else []) ++
    (n.whole ++ (placesPart n.places ++ exponentPart n.exponent))

/-- Digits stand where digits are due, and no zero stands in front of others. -/
structure NumberText.IsProper (n : NumberText) : Prop where
  whole_ne : n.whole ≠ []
  whole_digits : ∀ c ∈ n.whole, isAsciiDigit c
  whole_zero : n.whole.head? = some '0' → n.whole = ['0']
  places_digits : ∀ c ∈ n.places, isAsciiDigit c
  exponent_digits : ∀ e ∈ n.exponent, e.2 ≠ [] ∧ ∀ c ∈ e.2, isAsciiDigit c

/-- The text begins as numbers do. -/
def BeginsNumber (text : List Char) : Prop :=
  ∃ c rest, text = c :: rest ∧
    (isAsciiDigit c ∨ c = '-' ∧ ∃ d more, rest = d :: more ∧ isAsciiDigit d)

theorem NumberText.IsProper.beginsNumber {n : NumberText} (h : n.IsProper) (rest : List Char) :
    BeginsNumber (n.text ++ rest) := by
  obtain ⟨c, whole, hwhole⟩ := List.exists_cons_of_ne_nil h.whole_ne
  have hc : isAsciiDigit c := h.whole_digits c (by simp [hwhole])
  cases hsign : n.negative with
  | false => exact ⟨c, _, by simp only [NumberText.text, hsign, hwhole]; rfl, Or.inl hc⟩
  | true =>
    exact ⟨'-', _, by simp only [NumberText.text, hsign, hwhole]; rfl, Or.inr ⟨rfl, c, _, rfl, hc⟩⟩

/-- A number is scanned as it is written, whatever does not go on with it follows. -/
theorem NumberText.IsProper.scanNumber_eq {n : NumberText} (h : n.IsProper) {rest : List Char}
    (hrest : EndsNumber rest) :
    scanNumber (n.text ++ rest) = some { n with length := n.text.length } := by
  have hscan := scanUnsigned_eq h.whole_ne h.whole_digits h.whole_zero h.places_digits
    h.exponent_digits hrest
  obtain ⟨c, whole, hwhole⟩ := List.exists_cons_of_ne_nil h.whole_ne
  have hc : isAsciiDigit c := h.whole_digits c (by simp [hwhole])
  cases n with
  | mk negative whole' places exponent length =>
    dsimp only at hscan hwhole
    cases negative with
    | true =>
      simp only [NumberText.text, if_true, List.cons_append, List.nil_append, List.append_assoc]
      show (scanUnsigned _).map _ = _
      rw [hscan]
      simp
      omega
    | false =>
      have hne : c ≠ '-' := by
        rintro rfl
        exact absurd hc (by decide)
      have hunsigned : ∀ more, scanNumber (c :: more) = scanUnsigned (c :: more) := by
        intro more
        unfold scanNumber
        split
        · rename_i heq
          exact absurd (List.cons.inj heq).1 hne
        · rfl
      rw [hwhole, List.cons_append] at hscan
      simp only [NumberText.text, Bool.false_eq_true, if_false, List.nil_append, List.append_assoc,
        hwhole, List.cons_append, hunsigned, hscan]
      simp
      omega

theorem not_isSpace_of_isAsciiDigit {c : Char} (h : isAsciiDigit c) : isSpace c = false := by
  simp only [isSpace, Bool.or_eq_false_iff, decide_eq_false_iff_not]
  refine ⟨⟨⟨?_, ?_⟩, ?_⟩, ?_⟩ <;> rintro rfl <;> exact absurd h (by decide)

theorem head_of_mem_words :
    ∀ p ∈ words, ∃ c rest, p.1 = c :: rest ∧ isAsciiDigit c = false ∧
      (c = '-' → rest.head? = some 'I') := by
  simp only [words, List.forall_mem_cons]
  refine ⟨⟨_, _, rfl, ?_, ?_⟩, ⟨_, _, rfl, ?_, ?_⟩, ⟨_, _, rfl, ?_, ?_⟩, ⟨_, _, rfl, ?_, ?_⟩,
    ⟨_, _, rfl, ?_, ?_⟩, ⟨_, _, rfl, ?_, ?_⟩, List.forall_mem_nil _⟩ <;> decide

/-- No word begins as numbers do; the sign of the negative infinity is not followed by a digit. -/
theorem find_words_of_begins {text : List Char} (h : BeginsNumber text) :
    (words.find? fun (word, _) => word.isPrefixOf text) = none := by
  obtain ⟨c, rest, rfl, hc⟩ := h
  rw [List.find?_eq_none]
  intro p hp hprefix
  obtain ⟨a, tail, hword, hdigit, hsign⟩ := head_of_mem_words p hp
  simp only [hword, List.isPrefixOf, Bool.and_eq_true, beq_iff_eq] at hprefix
  obtain ⟨rfl, htail⟩ := hprefix
  rcases hc with hc | ⟨hc, d, more, rfl, hd⟩
  · rw [hdigit] at hc
    cases hc
  · have hfirst := hsign hc
    cases tail with
    | nil => cases hfirst
    | cons b tail =>
      cases hfirst
      simp only [List.isPrefixOf, Bool.and_eq_true, beq_iff_eq] at htail
      rw [← htail.1] at hd
      exact absurd hd (by decide)

theorem scan_of_begins {c : Char} {rest : List Char} {number : NumberText}
    (h : BeginsNumber (c :: rest)) (hscan : scanNumber (c :: rest) = some number) :
    scan c rest = (number.token, number.length - 1) := by
  have hword := find_words_of_begins h
  obtain ⟨_, _, heq, hc⟩ := h
  obtain ⟨rfl, rfl⟩ := List.cons.inj heq
  have hne : ∀ x ∈ ['[', ']', '{', '}', ',', ':', '"'], c ≠ x := by
    rintro x hx rfl
    have hplain : ∀ x ∈ ['[', ']', '{', '}', ',', ':', '"'], isAsciiDigit x = false ∧ x ≠ '-' := by
      simp [isAsciiDigit]
    obtain ⟨hdigit, hsign⟩ := hplain _ hx
    rcases hc with hc | ⟨hc, _⟩
    · rw [hdigit] at hc
      cases hc
    · exact hsign hc
  simp only [List.forall_mem_cons] at hne
  obtain ⟨h1, h2, h3, h4, h5, h6, h7, _⟩ := hne
  unfold scan
  split <;> first | contradiction | skip
  simp only [hword, hscan]

/-! ## Whole numbers -/

theorem head?_decimalDigits_ne {n : ℕ} (h : 0 < n) : (decimalDigits n).head? ≠ some '0' := by
  intro hhead
  cases hdigits : decimalDigits n with
  | nil => rw [hdigits] at hhead; cases hhead
  | cons c rest =>
    obtain ⟨_, hlow, _⟩ := length_decimalDigits_bounds h
    have hrest : ∀ c ∈ rest, isAsciiDigit c := fun x hx =>
      isAsciiDigit_of_mem_decimalDigits (n := n) (by rw [hdigits]; exact List.mem_cons_of_mem _ hx)
    have hvalue : ofDecimalDigits rest = n := by
      rw [hdigits] at hhead
      cases hhead
      rw [← ofDecimalDigits_zeros_append 1 rest]
      exact (congrArg ofDecimalDigits hdigits).symm.trans (ofDecimalDigits_decimalDigits n)
    have hless := ofDecimalDigits_lt hrest
    rw [hdigits, List.length_cons, Nat.add_sub_cancel] at hlow
    omega

/-- The numeral of a whole number, in parts. -/
def wholeText (n : ℤ) : NumberText :=
  { negative := n < 0, whole := decimalDigits n.natAbs, places := [], exponent := none, length := 0 }

theorem isProper_wholeText (n : ℤ) : (wholeText n).IsProper where
  whole_ne := decimalDigits_ne_nil _
  whole_digits := fun _ hc => isAsciiDigit_of_mem_decimalDigits hc
  whole_zero := by
    intro hhead
    rcases Nat.eq_zero_or_pos n.natAbs with hzero | hpos
    · simp only [wholeText, hzero]
      rfl
    · exact absurd hhead (head?_decimalDigits_ne hpos)
  places_digits := by simp [wholeText]
  exponent_digits := by simp [wholeText]

theorem text_wholeText (n : ℤ) : (wholeText n).text = (numeral n).toList := by
  by_cases hn : n < 0 <;> simp [wholeText, NumberText.text, numeral, hn, placesPart, exponentPart]

theorem token_of_whole {n : NumberText} (h : n.places = [] ∧ n.exponent = none)
    (hlength : n.whole.length ≤ numeralLimit) :
    n.token = .scalar
      (.int (if n.negative then -(ofDecimalDigits n.whole : ℤ) else ofDecimalDigits n.whole)) := by
  rw [NumberText.token, if_pos h, if_neg (not_lt.mpr hlength)]

/-- A whole number that can be written is read from its numeral. -/
theorem token_wholeText {n : ℤ} (h : isWritable n = true) (length : ℕ) :
    { wholeText n with length }.token = .scalar (.int n) := by
  have hvalue : (if n < 0 then -(n.natAbs : ℤ) else n.natAbs) = n := by split_ifs <;> omega
  rw [token_of_whole ⟨rfl, rfl⟩ (length_decimalDigits_le h)]
  simp only [wholeText, ofDecimalDigits_decimalDigits, decide_eq_true_eq, hvalue]

/-! ## Binary64 numbers -/

theorem ofDecimalDigits_append_zeros (digits : List Char) (k : ℕ) :
    ofDecimalDigits (digits ++ List.replicate k '0') = ofDecimalDigits digits * 10 ^ k := by
  change Nat.ofDigitChars 10 _ 0 = Nat.ofDigitChars 10 _ 0 * _
  rw [Nat.ofDigitChars_append, Nat.ofDigitChars_replicate_zero, mul_comm]

/-- The parts of a number with a point or an exponent, which denotes `value`. -/
structure NumberText.Denotes (n : NumberText) (text : List Char) (value : ℚ) : Prop where
  proper : n.IsProper
  unsigned : n.negative = false
  text_eq : n.text = text
  real : ¬ (n.places = [] ∧ n.exponent = none)
  value_eq : n.decimal.value = value

theorem value_decimal (n : NumberText) : n.decimal.value =
    ofDecimalDigits (n.whole ++ n.places) * pow10 (n.decimal.exponent) := rfl

variable {digits : List Char}

/-- Digits on both sides of a point denote all the digits, shifted by those behind the point. -/
theorem exists_denotes_pointed (whole places : List Char) (hwne : whole ≠ [])
    (hwhole : ∀ c ∈ whole, isAsciiDigit c) (hzero : whole.head? = some '0' → whole = ['0'])
    (hpne : places ≠ []) (hplaces : ∀ c ∈ places, isAsciiDigit c) :
    ∃ n : NumberText, n.Denotes (whole ++ '.' :: places)
      (ofDecimalDigits (whole ++ places) * pow10 (-places.length)) := by
  refine ⟨⟨false, whole, places, none, 0⟩, ⟨hwne, hwhole, hzero, hplaces, by simp⟩, rfl, ?_,
    fun h => hpne h.1, ?_⟩
  · obtain ⟨c, rest, rfl⟩ := List.exists_cons_of_ne_nil hpne
    simp [NumberText.text, placesPart, exponentPart]
  · rw [value_decimal]
    simp only [NumberText.decimal, zero_sub]

theorem isAsciiDigit_of_mem_zeros {k : ℕ} {c : Char} (hc : c ∈ List.replicate k '0') :
    isAsciiDigit c := by
  rw [List.eq_of_mem_replicate hc]
  decide

/-- Digits with a point among them, or with zeros up to the point, keep their value. -/
theorem exists_denotes_placePoint (hne : digits ≠ []) (hdigits : ∀ c ∈ digits, isAsciiDigit c)
    (hhead : digits.head? ≠ some '0') (whole : ℤ) :
    ∃ n : NumberText, n.Denotes (placePoint digits whole)
      (ofDecimalDigits digits * pow10 (whole - digits.length)) := by
  unfold placePoint
  split_ifs with hbelow hbeyond
  -- all digits behind the point, and zeros before them
  · obtain ⟨n, hn⟩ := exists_denotes_pointed ['0'] (List.replicate (-whole).toNat '0' ++ digits)
      (by simp) (fun _ hc => isAsciiDigit_of_mem_zeros (k := 1) hc)
      (fun _ => rfl) (by simp [hne]) fun c hc =>
        (List.mem_append.mp hc).elim isAsciiDigit_of_mem_zeros (hdigits c)
    have hvalue : ofDecimalDigits (['0'] ++ (List.replicate (-whole).toNat '0' ++ digits)) =
        ofDecimalDigits digits :=
      (ofDecimalDigits_zeros_append 1 _).trans (ofDecimalDigits_zeros_append _ _)
    have hplaces : -((List.replicate (-whole).toNat '0' ++ digits).length : ℤ) =
        whole - digits.length := by
      rw [List.length_append, List.length_replicate]
      omega
    rw [hvalue, hplaces] at hn
    exact ⟨n, hn⟩
  -- all digits before the point, and zeros after them
  · obtain ⟨n, hn⟩ := exists_denotes_pointed
      (digits ++ List.replicate (whole.toNat - digits.length) '0') ['0']
      (by simp [hne])
      (fun c hc => (List.mem_append.mp hc).elim (hdigits c) isAsciiDigit_of_mem_zeros)
      (fun hzero => absurd (by rwa [List.head?_append_of_ne_nil _ hne] at hzero) hhead)
      (by simp) (fun _ hc => isAsciiDigit_of_mem_zeros (k := 1) hc)
    have hvalue : ofDecimalDigits
        ((digits ++ List.replicate (whole.toNat - digits.length) '0') ++ ['0']) =
        ofDecimalDigits digits * 10 ^ (whole.toNat - digits.length + 1) := by
      rw [List.append_assoc, show ['0'] = List.replicate 1 '0' from rfl,
        ← List.replicate_add, ofDecimalDigits_append_zeros]
    have hexponent : whole - digits.length =
        ((whole.toNat - digits.length + 1 : ℕ) : ℤ) + -1 := by omega
    rw [hvalue] at hn
    rw [hexponent, pow10_add, pow10_natCast, ← mul_assoc]
    exact ⟨n, by exact_mod_cast hn⟩
  -- the point among the digits
  · have hpos := List.length_pos_iff.mpr hne
    have hdrop : digits.drop whole.toNat ≠ [] := by
      rw [← List.length_pos_iff, List.length_drop]
      omega
    have htake : digits.take whole.toNat ≠ [] := by
      rw [← List.length_pos_iff, List.length_take]
      omega
    obtain ⟨n, hn⟩ := exists_denotes_pointed _ _ htake
      (fun c hc => hdigits c (List.mem_of_mem_take hc))
      (fun hzero => absurd (by rwa [List.head?_take, if_neg (by omega)] at hzero) hhead) hdrop
      fun c hc => hdigits c (List.mem_of_mem_drop hc)
    have hplaces : -((digits.drop whole.toNat).length : ℤ) = whole - digits.length := by
      rw [List.length_drop]
      omega
    rw [List.take_append_drop, hplaces] at hn
    exact ⟨n, hn⟩

/-- The exponent part of scientific notation has a sign and digits for the exponent. -/
theorem exists_exponentText_eq (exponent : ℤ) : ∃ padded : List Char,
    (padded ≠ [] ∧ ∀ c ∈ padded, isAsciiDigit c) ∧
    exponentText exponent = exponentPart (some (decide (exponent < 0), padded)) ∧
    ofDecimalDigits padded = exponent.natAbs := by
  have hall : ∀ c ∈ decimalDigits exponent.natAbs, isAsciiDigit c :=
    fun c hc => isAsciiDigit_of_mem_decimalDigits hc
  have hread := ofDecimalDigits_decimalDigits exponent.natAbs
  by_cases hshort : (decimalDigits exponent.natAbs).length < 2
  · refine ⟨'0' :: decimalDigits exponent.natAbs, ⟨by simp, ?_⟩, ?_, ?_⟩
    · exact List.forall_mem_cons.mpr ⟨by decide, hall⟩
    · simp [exponentText, exponentPart, hshort]
    · exact (ofDecimalDigits_zeros_append 1 _).trans hread
  · refine ⟨decimalDigits exponent.natAbs, ⟨decimalDigits_ne_nil _, hall⟩, ?_, hread⟩
    simp [exponentText, exponentPart, hshort]

/-- Scientific notation keeps the value of the digits. -/
theorem exists_denotes_scientific {first : Char} {rest : List Char} (hone : isAsciiDigit first)
    (hrest : ∀ c ∈ rest, isAsciiDigit c) (hhead : first ≠ '0') (exponent : ℤ) :
    ∃ n : NumberText, n.Denotes (first :: placesPart rest ++ exponentText exponent)
      (ofDecimalDigits (first :: rest) * pow10 (exponent - rest.length)) := by
  obtain ⟨padded, hpadded, htext, hvalue⟩ := exists_exponentText_eq exponent
  refine ⟨⟨false, [first], rest, some (decide (exponent < 0), padded), 0⟩,
    ⟨by simp, by simpa using hone, ?_, hrest, ?_⟩, rfl, ?_, by simp, ?_⟩
  · intro hzero
    exact absurd (Option.some.inj hzero) hhead
  · rintro e he
    cases he
    exact hpadded
  · rw [htext]
    simp [NumberText.text]
  · rw [value_decimal]
    dsimp only [NumberText.decimal]
    rw [hvalue]
    congr 2
    simp only [decide_eq_true_eq]
    split_ifs <;> omega

theorem exists_stripped (all : List Char) :
    ∃ k, all = (all.reverse.dropWhile (· = '0')).reverse ++ List.replicate k '0' := by
  have hsplit := List.takeWhile_append_dropWhile (p := (· = '0')) (l := all.reverse)
  have hzeros : all.reverse.takeWhile (· = '0') =
      List.replicate (all.reverse.takeWhile (· = '0')).length '0' :=
    List.eq_replicate_of_mem fun c hc => of_decide_eq_true
      (List.all_eq_true.mp List.all_takeWhile c hc)
  refine ⟨(all.reverse.takeWhile (· = '0')).length, ?_⟩
  rw [← List.reverse_replicate, ← hzeros, ← List.reverse_append, hsplit, List.reverse_reverse]

/-- Digits that a numeral of a number above zero has before the zeros at its end. -/
structure IsStripped (n : ℕ) (digits : List Char) (zeros : ℕ) : Prop where
  numeral_eq : decimalDigits n = digits ++ List.replicate zeros '0'
  digits_ne : digits ≠ []
  all_digits : ∀ c ∈ digits, isAsciiDigit c
  head_ne : digits.head? ≠ some '0'

theorem exists_isStripped {n : ℕ} (h : 0 < n) :
    ∃ zeros, IsStripped n ((decimalDigits n).reverse.dropWhile (· = '0')).reverse zeros := by
  obtain ⟨zeros, hall⟩ := exists_stripped (decimalDigits n)
  set digits := ((decimalDigits n).reverse.dropWhile (· = '0')).reverse
  have hne : digits ≠ [] := by
    intro hnil
    have hread := ofDecimalDigits_decimalDigits n
    rw [hall, hnil, ofDecimalDigits_append_zeros] at hread
    simp [ofDecimalDigits] at hread
    omega
  refine ⟨zeros, hall, hne, fun c hc => ?_, ?_⟩
  · refine isAsciiDigit_of_mem_decimalDigits (n := n) ?_
    rw [hall]
    exact List.mem_append_left _ hc
  · have hhead := head?_decimalDigits_ne h
    rwa [hall, List.head?_append_of_ne_nil _ hne] at hhead

/-- The stripped digits denote the decimal when they are shifted to its size. -/
theorem IsStripped.value_eq {d : Decimal} {zeros : ℕ} (h : IsStripped d.digits digits zeros) :
    d.value = ofDecimalDigits digits * pow10 (d.size - digits.length) := by
  have hsize : d.size - digits.length = (zeros : ℤ) + d.exponent := by
    rw [Decimal.size, h.numeral_eq, List.length_append, List.length_replicate]
    push_cast
    ring
  have hread := ofDecimalDigits_decimalDigits d.digits
  rw [h.numeral_eq, ofDecimalDigits_append_zeros] at hread
  rw [Decimal.value, hsize, pow10_add, pow10_natCast, ← hread]
  push_cast
  ring

/-- A decimal above zero is written as a number that denotes its value. -/
theorem exists_denotes_text {d : Decimal} (h : 0 < d.digits) :
    ∃ n : NumberText, n.Denotes d.text d.value := by
  obtain ⟨zeros, hstripped⟩ := exists_isStripped h
  set digits := ((decimalDigits d.digits).reverse.dropWhile (· = '0')).reverse with hdigits
  have hfirst := hstripped.head_ne
  rw [hstripped.value_eq]
  unfold Decimal.text
  simp only [← hdigits]
  split_ifs
  · have hplaced := exists_denotes_placePoint hstripped.digits_ne hstripped.all_digits hfirst d.size
    rwa [show d.size = (decimalDigits d.digits).length + d.exponent - 1 + 1 by
      rw [Decimal.size]; ring] at hplaced ⊢
  · obtain ⟨first, rest, hcons⟩ := List.exists_cons_of_ne_nil hstripped.digits_ne
    have hall := hstripped.all_digits
    rw [hcons, List.forall_mem_cons] at hall
    have hscientific := exists_denotes_scientific hall.1 hall.2
      (fun hzero => hfirst (by rw [hcons, hzero]; rfl))
      ((decimalDigits d.digits).length + d.exponent - 1)
    rw [hcons, show d.size - ((first :: rest).length : ℤ) =
      (decimalDigits d.digits).length + d.exponent - 1 - rest.length by
        rw [Decimal.size, List.length_cons]; push_cast; ring]
    cases rest with
    | nil => exact hscientific
    | cons second rest => exact hscientific

theorem NumberText.token_of_real {n : NumberText} (h : ¬ (n.places = [] ∧ n.exponent = none)) :
    n.token = .scalar (.real n.decimal.toBinary64) := if_neg h

/-- What is printed for a number above zero is scanned as that number. -/
theorem exists_token_shortest {x : ℚ} (hgrid : OnGrid x) (hpos : 0 < x)
    (hlimit : x < Binary64.overflow) :
    ∃ n : NumberText, n.Denotes (Decimal.shortest x).text (Decimal.shortest x).value ∧
      n.decimal.toBinary64 = .finite x := by
  have hread := Decimal.toBinary64_shortest hgrid hpos hlimit
  have hdigits : 0 < (Decimal.shortest x).digits := by
    by_contra hzero
    rw [Decimal.toBinary64_eq, if_pos (by omega), Decimal.negative_shortest] at hread
    exact hpos.ne (Binary64.finite.inj hread)
  obtain ⟨n, hn⟩ := exists_denotes_text hdigits
  refine ⟨n, hn, ?_⟩
  rw [← hread]
  exact Decimal.toBinary64_congr (hn.unsigned.trans (Decimal.negative_shortest x).symm) hn.value_eq

/-- What is printed for a number with a value is scanned as that number. -/
theorem exists_token_realText {x : Binary64} (hproper : x.IsProper) (hvalue : x.toRat?.isSome) :
    ∃ n : NumberText, n.IsProper ∧ n.text = realText x ∧ n.token = .scalar (.real x) := by
  have hdigit : ∀ c ∈ ['0'], isAsciiDigit c := by simp [isAsciiDigit]
  have hzero : ∀ negative, NumberText.IsProper ⟨negative, ['0'], ['0'], none, 0⟩ := fun _ =>
    ⟨by simp, hdigit, fun _ => rfl, hdigit, by simp⟩
  cases x with
  | nan => cases hvalue
  | infinite _ => cases hvalue
  | negativeZero => exact ⟨_, hzero true, rfl, by rfl⟩
  | finite x =>
    obtain ⟨hgrid, hlimit⟩ := hproper
    rcases lt_trichotomy x 0 with hneg | rfl | hpos
    · obtain ⟨n, hn, hread⟩ := exists_token_shortest hgrid.neg (neg_pos.mpr hneg)
        ((neg_le_abs x).trans_lt hlimit)
      obtain ⟨hne, hwhole, hlead, hplaces, hexponent⟩ := hn.proper
      refine ⟨{ n with negative := true }, ⟨hne, hwhole, hlead, hplaces, hexponent⟩, ?_, ?_⟩
      · have htext := hn.text_eq
        simp only [NumberText.text, hn.unsigned, Bool.false_eq_true, if_false,
          List.nil_append] at htext
        simp [NumberText.text, realText, Binary64.text, hneg, hneg.ne, magnitude, htext]
      · have hdecimal : { n with negative := true : NumberText }.decimal =
            { n.decimal with negative := true } := rfl
        rw [NumberText.token_of_real (n := { n with negative := true }) hn.real, hdecimal,
          Decimal.toBinary64_neg (d := n.decimal) hn.unsigned, hread]
        simp [Binary64.neg, hneg.ne]
    · exact ⟨_, hzero false, rfl, by rfl⟩
    · obtain ⟨n, hn, hread⟩ := exists_token_shortest hgrid hpos ((le_abs_self x).trans_lt hlimit)
      refine ⟨n, hn.proper, ?_, ?_⟩
      · simp [hn.text_eq, realText, Binary64.text, hpos.ne', not_lt.mpr hpos.le, magnitude]
      · rw [NumberText.token_of_real hn.real, hread]

end Ringtone.Json
