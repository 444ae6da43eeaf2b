import Mathlib.Tactic
import Ringtone.Number.Numeral

/-!
# Numerals of whole numbers

A run of decimal digits is some zeros and then the numeral of the number that it denotes, unless
that number is zero: then it is zeros only. What is read as a whole number has few enough digits to
be written, and its numeral is read back.
-/

namespace Ringtone.Number

open Ringtone.Text

theorem isAsciiDigit_eq_isDigit (c : Char) : isAsciiDigit c = c.isDigit := by
  simp only [isAsciiDigit, Char.isDigit, ge_iff_le, Char.le_def]

/-- A decimal digit is the character of its value. -/
theorem digitChar_of_isAsciiDigit {c : Char} (h : isAsciiDigit c) :
    c.toNat - '0'.toNat < 10 ∧ Nat.digitChar (c.toNat - '0'.toNat) = c := by
  simp only [isAsciiDigit, Bool.and_eq_true, decide_eq_true_eq, Char.le_def, UInt32.le_iff_toNat_le]
    at h
  obtain ⟨hlow, hhigh⟩ := h
  change 48 ≤ c.toNat at hlow
  change c.toNat ≤ 57 at hhigh
  have hlt : c.toNat - '0'.toNat < 10 := show c.toNat - 48 < 10 by omega
  refine ⟨hlt, Char.toNat_inj.mp ?_⟩
  rw [Nat.toNat_digitChar_of_lt_ten hlt]
  show 48 + (c.toNat - 48) = c.toNat
  omega

theorem ofDecimalDigits_append_singleton (digits : List Char) (c : Char) :
    ofDecimalDigits (digits ++ [c]) = 10 * ofDecimalDigits digits + (c.toNat - '0'.toNat) := by
  simp [ofDecimalDigits]

theorem ofDecimalDigits_zeros_append (k : ℕ) (digits : List Char) :
    ofDecimalDigits (List.replicate k '0' ++ digits) = ofDecimalDigits digits := by
  change Nat.ofDigitChars 10 _ 0 = Nat.ofDigitChars 10 _ 0
  rw [Nat.ofDigitChars_append, Nat.ofDigitChars_replicate_zero, mul_zero]

theorem ofDecimalDigits_decimalDigits (n : ℕ) : ofDecimalDigits (decimalDigits n) = n :=
  Nat.ofDigitChars_toDigits (by norm_num) le_rfl

theorem isAsciiDigit_of_mem_decimalDigits {n : ℕ} {c : Char} (h : c ∈ decimalDigits n) :
    isAsciiDigit c := by
  rw [isAsciiDigit_eq_isDigit]
  exact Nat.isDigit_of_mem_toDigits (by norm_num) le_rfl h

/-- A run of digits that does not begin with zero is the numeral of its number. -/
theorem decimalDigits_ofDecimalDigits {digits : List Char} (hne : digits ≠ [])
    (hdigits : ∀ c ∈ digits, isAsciiDigit c) (hhead : digits.head? ≠ some '0') :
    0 < ofDecimalDigits digits ∧ decimalDigits (ofDecimalDigits digits) = digits := by
  induction digits using List.reverseRecOn with
  | nil => exact absurd rfl hne
  | append_singleton front c ih =>
    obtain ⟨hlt, hchar⟩ := digitChar_of_isAsciiDigit (hdigits c (by simp))
    rw [ofDecimalDigits_append_singleton]
    cases front with
    | nil =>
      have hzero : c ≠ '0' := by simpa using hhead
      have hvalue : c.toNat - '0'.toNat ≠ 0 := fun h => hzero (by rw [← hchar, h]; rfl)
      simp only [ofDecimalDigits, List.foldl_nil, mul_zero, zero_add, List.nil_append]
      exact ⟨Nat.pos_of_ne_zero hvalue, by rw [decimalDigits, Nat.toDigits_of_lt_base hlt, hchar]⟩
    | cons d front =>
      obtain ⟨hpos, hfront⟩ := ih (by simp) (fun x hx => hdigits x (List.mem_append_left _ hx))
        (by simpa using hhead)
      refine ⟨by omega, ?_⟩
      rw [decimalDigits, ← Nat.toDigits_append_toDigits (by norm_num) hpos hlt,
        Nat.toDigits_of_lt_base hlt, hchar]
      exact congrArg (· ++ [c]) hfront

/-- A run of digits is zeros and the numeral of its number, or zeros only. -/
theorem eq_zeros_append {digits : List Char} (hdigits : ∀ c ∈ digits, isAsciiDigit c) :
    (∃ k, digits = List.replicate k '0' ∧ ofDecimalDigits digits = 0) ∨
      ∃ k, digits = List.replicate k '0' ++ decimalDigits (ofDecimalDigits digits) ∧
        0 < ofDecimalDigits digits := by
  induction digits with
  | nil => exact Or.inl ⟨0, rfl, rfl⟩
  | cons c rest ih =>
    by_cases hzero : c = '0'
    · subst hzero
      have hvalue : ofDecimalDigits ('0' :: rest) = ofDecimalDigits rest :=
        ofDecimalDigits_zeros_append 1 rest
      rw [hvalue]
      rcases ih (fun x hx => hdigits x (List.mem_cons_of_mem _ hx)) with ⟨k, hk, h0⟩ | ⟨k, hk, hpos⟩
      · exact Or.inl ⟨k + 1, by rw [List.replicate_succ, ← hk], h0⟩
      · refine Or.inr ⟨k + 1, ?_, hpos⟩
        rw [List.replicate_succ, List.cons_append, ← hk]
    · obtain ⟨hpos, hnumeral⟩ := decimalDigits_ofDecimalDigits (List.cons_ne_nil c rest) hdigits
        (by simpa using hzero)
      exact Or.inr ⟨0, by simpa using hnumeral.symm, hpos⟩

theorem ofDecimalDigits_lt {digits : List Char} (hdigits : ∀ c ∈ digits, isAsciiDigit c) :
    ofDecimalDigits digits < 10 ^ digits.length := by
  induction digits using List.reverseRecOn with
  | nil => simp [ofDecimalDigits]
  | append_singleton front c ih =>
    have hc := (digitChar_of_isAsciiDigit (hdigits c (by simp))).1
    have := ih fun x hx => hdigits x (List.mem_append_left _ hx)
    rw [ofDecimalDigits_append_singleton, List.length_append, List.length_singleton, pow_succ]
    omega

/-! ## Numerals with a sign -/

theorem mem_numeral {n : ℤ} {c : Char} (h : c ∈ (numeral n).toList) : c = '-' ∨ isAsciiDigit c := by
  rw [numeral, String.toList_ofList] at h
  split_ifs at h
  · exact (List.mem_cons.mp h).imp_right isAsciiDigit_of_mem_decimalDigits
  · exact Or.inr (isAsciiDigit_of_mem_decimalDigits h)

theorem decimalDigits_injective : Function.Injective decimalDigits :=
  Function.LeftInverse.injective ofDecimalDigits_decimalDigits

theorem numeral_injective : Function.Injective numeral := by
  have hminus : ∀ n m : ℕ, '-' :: decimalDigits n ≠ decimalDigits m := by
    intro n m h
    have := isAsciiDigit_of_mem_decimalDigits (h ▸ List.mem_cons_self : '-' ∈ decimalDigits m)
    exact absurd this (by decide)
  intro m n h
  have h := String.ofList_injective h
  split_ifs at h with hm hn hn
  · have := decimalDigits_injective (List.cons_inj_right _ |>.mp h)
    omega
  · exact absurd h (hminus _ _)
  · exact absurd h.symm (hminus _ _)
  · have := decimalDigits_injective h
    omega

/-! ## Reading numerals -/

theorem digitValue?_lt {c : Char} {d : ℕ} (h : digitValue? c = some d) : d < 10 := by
  obtain ⟨start, hfind, rfl⟩ := Option.map_eq_some_iff.mp h
  have hrange := List.find?_some hfind
  simp only [Bool.and_eq_true, decide_eq_true_eq] at hrange
  omega

theorem digitValue?_of_isAsciiDigit {c : Char} (h : isAsciiDigit c) :
    digitValue? c = some (c.toNat - '0'.toNat) := by
  have hrange : 48 ≤ c.toNat ∧ c.toNat < 58 := by
    obtain ⟨hlt, hchar⟩ := digitChar_of_isAsciiDigit h
    rw [← hchar, Nat.toNat_digitChar_of_lt_ten hlt]
    omega
  rw [digitValue?, zeros, List.find?_cons_of_pos]
  · rfl
  · simpa using hrange

/-- A run of digits in groups gives one value below ten for each digit. -/
theorem groupedDigits?_lt {text : List Char} {digits : List ℕ}
    (h : groupedDigits? text = some digits) : ∀ d ∈ digits, d < 10 := by
  have hcons : ∀ {c : Char} {rest : List Char} {values : List ℕ},
      (∀ {more}, groupedDigits? rest = some more → ∀ d ∈ more, d < 10) →
      (do return (← digitValue? c) :: (← groupedDigits? rest)) = some values →
      ∀ d ∈ values, d < 10 := by
    intro c rest values hrest hvalues
    cases hfirst : digitValue? c with
    | none => simp [hfirst] at hvalues
    | some d =>
      cases hmore : groupedDigits? rest with
      | none => simp [hfirst, hmore] at hvalues
      | some more =>
        simp only [hfirst, hmore, Option.bind_eq_bind, Option.bind_some, Option.pure_def,
          Option.some.injEq] at hvalues
        rw [← hvalues]
        exact List.forall_mem_cons.mpr ⟨digitValue?_lt hfirst, hrest hmore⟩
  induction text using groupedDigits?.induct generalizing digits with
  | case1 => cases h
  | case2 c =>
    obtain ⟨d, hd, rfl⟩ := Option.map_eq_some_iff.mp h
    exact List.forall_mem_singleton.mpr (digitValue?_lt hd)
  | case3 c rest ih => exact hcons ih h
  | case4 c rest hne hgroup ih =>
    rw [groupedDigits?] at h
    · exact hcons ih h
    · exact hne
    · exact hgroup

theorem foldl_digits_lt {digits : List ℕ} (h : ∀ d ∈ digits, d < 10) :
    digits.foldl (fun n digit => 10 * n + digit) 0 < 10 ^ digits.length := by
  induction digits using List.reverseRecOn with
  | nil => norm_num
  | append_singleton front d ih =>
    have hd := h d (by simp)
    have hfront := ih fun x hx => h x (List.mem_append_left _ hx)
    rw [List.foldl_append, List.foldl_cons, List.foldl_nil, List.length_append,
      List.length_singleton, pow_succ]
    omega

theorem readNat?_lt {text : List Char} {n : ℕ} (h : readNat? text = some n) :
    n < 10 ^ numeralLimit := by
  rw [readNat?] at h
  cases hdigits : groupedDigits? text with
  | none => simp [hdigits] at h
  | some digits =>
    simp only [hdigits, Option.bind_eq_bind, Option.bind_some] at h
    split_ifs at h with hlong
    cases h
    calc digits.foldl (fun n digit => 10 * n + digit) 0 < 10 ^ digits.length :=
          foldl_digits_lt (groupedDigits?_lt hdigits)
      _ ≤ 10 ^ numeralLimit := Nat.pow_le_pow_right (by norm_num) (not_lt.mp hlong)

/-- What is read as a whole number can be written. -/
theorem isWritable_of_readInt? {text : List Char} {n : ℤ} (h : readInt? text = some n) :
    isWritable n = true := by
  have hsigned : ∀ {rest : List Char} {sign : ℤ → ℤ}, (∀ m, (sign m).natAbs = m.natAbs) →
      (do return (← readNat? rest : ℤ)).map sign = some n → isWritable n = true := by
    intro rest sign hsign hread
    cases hnat : readNat? rest with
    | none => simp [hnat] at hread
    | some m =>
      have hpow : ∀ k, Nat.pow 10 k = 10 ^ k := fun _ => rfl
      rw [hnat] at hread
      cases hread
      rw [isWritable, decide_eq_true_eq, hsign, hpow]
      exact readNat?_lt hnat
  rw [readInt?] at h
  split at h
  · exact hsigned Int.natAbs_neg h
  · exact hsigned (fun _ => rfl) h
  · exact hsigned (fun _ => rfl) h

/-! ### Runs of ASCII digits -/

variable {digits : List Char}

theorem groupedDigits?_of_digits (hne : digits ≠ []) (h : ∀ c ∈ digits, isAsciiDigit c) :
    groupedDigits? digits = some (digits.map fun c => c.toNat - '0'.toNat) := by
  induction digits with
  | nil => exact absurd rfl hne
  | cons c rest ih =>
    obtain ⟨hc, hrest⟩ := List.forall_mem_cons.mp h
    cases rest with
    | nil => rw [groupedDigits?, digitValue?_of_isAsciiDigit hc]; rfl
    | cons d more =>
      have hd := (List.forall_mem_cons.mp hrest).1
      rw [groupedDigits?, digitValue?_of_isAsciiDigit hc, ih (List.cons_ne_nil d more) hrest]
      · rfl
      · simp
      · rintro _ ⟨rfl, _⟩
        exact absurd hd (by decide)

theorem readNat?_of_digits (hne : digits ≠ []) (h : ∀ c ∈ digits, isAsciiDigit c)
    (hlength : digits.length ≤ numeralLimit) :
    readNat? digits = some (ofDecimalDigits digits) := by
  rw [readNat?, groupedDigits?_of_digits hne h]
  simp only [Option.bind_eq_bind, Option.bind_some, List.length_map]
  rw [if_neg (not_lt.mpr hlength), List.foldl_map]
  rfl

theorem trim_of_not_isPadding {text : List Char} (h : ∀ c ∈ text, isPadding c = false) :
    trim text = text := by
  have hdrop : ∀ {l : List Char}, (∀ c ∈ l, isPadding c = false) → l.dropWhile isPadding = l := by
    intro l hl
    cases l with
    | nil => rfl
    | cons c rest => rw [List.dropWhile_cons_of_neg (by rw [hl c List.mem_cons_self]; decide)]
  rw [trim, hdrop h, hdrop fun c hc => h c (List.mem_reverse.mp hc), List.reverse_reverse]

theorem isPadding_of_isAsciiDigit {c : Char} (h : isAsciiDigit c) : isPadding c = false := by
  obtain ⟨hlt, hchar⟩ := digitChar_of_isAsciiDigit h
  rw [← hchar]
  exact (by decide : ∀ d < 10, isPadding (Nat.digitChar d) = false) _ hlt

theorem readInt?_of_digits (hne : digits ≠ []) (h : ∀ c ∈ digits, isAsciiDigit c)
    (hlength : digits.length ≤ numeralLimit) :
    readInt? digits = some (ofDecimalDigits digits : ℤ) := by
  rw [readInt?, trim_of_not_isPadding fun c hc => isPadding_of_isAsciiDigit (h c hc)]
  split
  · exact absurd (h '-' List.mem_cons_self) (by decide)
  · exact absurd (h '+' List.mem_cons_self) (by decide)
  · rw [readNat?_of_digits hne h hlength]
    rfl

theorem decimalDigits_ne_nil (n : ℕ) : decimalDigits n ≠ [] := Nat.toDigits_ne_nil

theorem length_decimalDigits_le {n : ℤ} (h : isWritable n = true) :
    (decimalDigits n.natAbs).length ≤ numeralLimit := by
  have hpow : ∀ k, Nat.pow 10 k = 10 ^ k := fun _ => rfl
  rw [isWritable, decide_eq_true_eq, hpow] at h
  exact (Nat.length_toDigits_le_iff (by norm_num) (by decide)).mpr h

theorem readNat?_decimalDigits {n : ℤ} (h : isWritable n = true) :
    readNat? (decimalDigits n.natAbs) = some n.natAbs := by
  have hread := readNat?_of_digits (decimalDigits_ne_nil n.natAbs)
    (fun _ => isAsciiDigit_of_mem_decimalDigits) (length_decimalDigits_le h)
  rwa [ofDecimalDigits_decimalDigits] at hread

theorem toList_numeral_natCast (n : ℕ) : (numeral n).toList = decimalDigits n := by
  rw [numeral, String.toList_ofList, if_neg (Int.natCast_nonneg n).not_gt, Int.natAbs_natCast]

theorem readNat?_numeral {n : ℕ} (h : isWritable n = true) :
    readNat? (numeral n).toList = some n := by
  rw [toList_numeral_natCast]
  exact readNat?_decimalDigits h

theorem readInt?_numeral {n : ℤ} (h : isWritable n = true) :
    readInt? (numeral n).toList = some n := by
  have hdigits : ∀ c ∈ decimalDigits n.natAbs, isAsciiDigit c := fun _ =>
    isAsciiDigit_of_mem_decimalDigits
  rw [numeral, String.toList_ofList]
  split_ifs with hneg
  · have hpadding : ∀ c ∈ '-' :: decimalDigits n.natAbs, isPadding c = false :=
      List.forall_mem_cons.mpr ⟨by decide, fun c hc => isPadding_of_isAsciiDigit (hdigits c hc)⟩
    rw [readInt?, trim_of_not_isPadding hpadding]
    show (do return (← readNat? (decimalDigits n.natAbs) : ℤ)).map (fun m => -m) = some n
    rw [readNat?_decimalDigits h]
    show some (-(n.natAbs : ℤ)) = some n
    rw [Int.ofNat_natAbs_of_nonpos hneg.le, neg_neg]
  · rw [readInt?_of_digits (decimalDigits_ne_nil _) hdigits (length_decimalDigits_le h),
      ofDecimalDigits_decimalDigits, Int.natAbs_of_nonneg (not_lt.mp hneg)]

end Ringtone.Number
