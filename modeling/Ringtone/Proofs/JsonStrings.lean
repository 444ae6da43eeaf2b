import Ringtone.Json.Printer
import Ringtone.Json.Token
import Ringtone.Proofs.Points

/-!
# Strings of a JSON text

A string is scanned in pieces, and its text is what the pieces join to. What is printed for a code
point is scanned as one piece, or as two that join to the point. So what is printed for a text gives
this text with its own points joined that join, and no text that comes from a string has such
points.
-/

namespace Ringtone.Json

open Number Text

/-! ## Joined pieces -/

section Pieces

variable {point high low : Point} {rest : List Piece}

/-- An escape stays by itself unless it is the first half of a pair. -/
theorem joinPieces_numbered (h : ∀ low more, rest = .numbered low :: more →
      ¬ (point.isHigh = true ∧ low.isLow = true)) :
    joinPieces (.numbered point :: rest) = point :: joinPieces rest := by
  match rest, h with
  | [], _ => rfl
  | .plain c :: more, _ => rfl
  | .numbered low :: more, h =>
    have hapart := h low more rfl
    rw [joinPieces, if_neg (by simpa using hapart)]

theorem joinPieces_pair (hhigh : high.isHigh = true) (hlow : low.isLow = true) :
    joinPieces (.numbered high :: .numbered low :: rest) =
      Point.join high low :: joinPieces rest := by
  rw [joinPieces, hhigh, hlow]
  rfl

/-- A low surrogate that begins a text comes from the escape of it that begins the pieces. -/
theorem exists_numbered_of_head? {pieces : List Piece}
    (h : (joinPieces pieces).head? = some low) (hlow : low.isLow = true) :
    ∃ more, pieces = .numbered low :: more := by
  induction pieces using joinPieces.induct with
  | case1 => simp [joinPieces] at h
  | case2 c more =>
    rw [joinPieces, List.head?_cons, Option.some.injEq] at h
    simp [← h] at hlow
  | case3 first second more hpair =>
    rw [Bool.and_eq_true] at hpair
    rw [joinPieces_pair hpair.1 hpair.2, List.head?_cons, Option.some.injEq] at h
    have hjoin := Point.val_join hpair.1 hpair.2
    rw [← h, Point.isLow_of_le (by omega)] at hlow
    cases hlow
  | case4 first second more hpair =>
    rw [joinPieces, if_neg hpair, List.head?_cons, Option.some.injEq] at h
    exact ⟨_, by rw [h]⟩
  | case5 first more hfirst =>
    rw [joinPieces_numbered fun second others hmore => absurd hmore (hfirst second others),
      List.head?_cons, Option.some.injEq] at h
    exact ⟨_, by rw [h]⟩

/-- The text of a string has no two points that would join. -/
theorem isJoined_joinPieces (pieces : List Piece) : (joinPieces pieces).IsJoined := by
  induction pieces using joinPieces.induct with
  | case1 => exact Points.isJoined_nil
  | case2 c more ih =>
    rw [joinPieces]
    exact Points.isJoined_cons.mpr ⟨by simp, ih⟩
  | case3 first second more hpair ih =>
    rw [Bool.and_eq_true] at hpair
    have hjoin := Point.val_join hpair.1 hpair.2
    rw [joinPieces_pair hpair.1 hpair.2]
    refine Points.isJoined_cons.mpr ⟨fun next _ => ?_, ih⟩
    rw [Point.isHigh_of_le (by omega)]
    simp
  | case4 first second more hpair ih =>
    rw [joinPieces, if_neg hpair]
    refine Points.isJoined_cons.mpr ⟨fun next hnext hhalves => hpair ?_, ih⟩
    obtain ⟨others, hothers⟩ := exists_numbered_of_head? hnext hhalves.2
    cases hothers
    rw [hhalves.1, hhalves.2, Bool.and_self]
  | case5 first more hfirst ih =>
    rw [joinPieces_numbered fun second others hmore => absurd hmore (hfirst second others)]
    refine Points.isJoined_cons.mpr ⟨fun next hnext hhalves => ?_, ih⟩
    obtain ⟨others, hothers⟩ := exists_numbered_of_head? hnext hhalves.2
    exact hfirst next others hothers

end Pieces

/-! ## What is printed for a code point -/

theorem hexValue?_digitChar : ∀ d < 16, hexValue? (Nat.digitChar d) = some d := by decide

theorem hexDigits_four (n : ℕ) : hexDigits 4 n =
    [Nat.digitChar (n / 4096 % 16), Nat.digitChar (n / 256 % 16), Nat.digitChar (n / 16 % 16),
      Nat.digitChar (n % 16)] := by
  simp [hexDigits, Nat.div_div_eq_div_mul]

@[simp]
theorem length_numbered (n : ℕ) : (numbered n).length = 6 := by
  rw [numbered, hexDigits_four]
  rfl

/-- Whether a code point is written as a character, maybe behind a backslash. -/
def IsPlainPoint (point : Point) : Prop :=
  point.val ∈ [0x08, 0x09, 0x0A, 0x0C, 0x0D] ∨ 0x20 ≤ point.val ∧ point.val < 0x7F

instance (point : Point) : Decidable (IsPlainPoint point) := inferInstanceAs (Decidable (_ ∨ _))

/-- The pieces that a code point is written in. -/
def piecesOf (point : Point) : List Piece :=
  if IsPlainPoint point then [.plain (Char.ofNat point.val)]
  else if point.val < 0x10000 then [.numbered point]
  else [.numbered point.highHalf, .numbered point.lowHalf]

/-- Only a low surrogate itself is written in pieces that begin with its escape. -/
theorem eq_of_piecesOf_append {point low : Point} {rest more : List Piece}
    (h : piecesOf point ++ rest = .numbered low :: more) (hlow : low.isLow = true) :
    point = low := by
  rw [piecesOf] at h
  split_ifs at h with hplain hsmall
  · cases h
  · cases h
    rfl
  · cases h
    obtain ⟨hhigh, -, -⟩ := Point.join_halves (not_lt.mp hsmall)
    rw [Point.isHigh_iff] at hhigh
    rw [Point.isLow_iff] at hlow
    omega

/-- A surrogate is written as one escape. -/
theorem piecesOf_of_surrogate {point : Point} (hlow : 0xD800 ≤ point.val)
    (hhigh : point.val < 0xE000) : piecesOf point = [.numbered point] := by
  have hplain : ¬ IsPlainPoint point := by
    rintro (hmem | hrange)
    · simp only [List.mem_cons, List.not_mem_nil, or_false] at hmem
      omega
    · omega
  rw [piecesOf, if_neg hplain, if_pos (by omega)]

/-- The pieces of a code point are joined to this point, unless it is a high surrogate and the
escape of a low one follows. -/
theorem joinPieces_piecesOf_append {point : Point} {rest : List Piece}
    (h : ∀ low more, rest = .numbered low :: more →
      ¬ (point.isHigh = true ∧ low.isLow = true)) :
    joinPieces (piecesOf point ++ rest) = point :: joinPieces rest := by
  rw [piecesOf]
  split_ifs with hplain hsmall
  · have hvalid : point.val < 0xD800 := by
      rcases hplain with hmem | hrange
      · simp only [List.mem_cons, List.not_mem_nil, or_false] at hmem
        omega
      · omega
    rw [List.singleton_append, joinPieces, Point.ofChar_ofNat (Or.inl hvalid)]
  · exact joinPieces_numbered h
  · obtain ⟨hhigh, hlow, hjoin⟩ := Point.join_halves (not_lt.mp hsmall)
    rw [List.cons_append, List.singleton_append, joinPieces_pair hhigh hlow, hjoin]

/-- The pieces that a text is written in are joined as the text's own points are. -/
theorem joinPieces_flatMap_piecesOf (text : Points) :
    joinPieces (text.flatMap piecesOf) = text.joined := by
  induction text using Points.joined.induct with
  | case1 high low rest hpair ih =>
    rw [Bool.and_eq_true] at hpair
    have hhigh := Point.isHigh_iff.mp hpair.1
    have hlow := Point.isLow_iff.mp hpair.2
    rw [Points.joined, if_pos (by rw [hpair.1, hpair.2]; rfl), List.flatMap_cons,
      List.flatMap_cons, piecesOf_of_surrogate hhigh.1 (by omega),
      piecesOf_of_surrogate (by omega) hlow.2, List.singleton_append, List.singleton_append,
      joinPieces_pair hpair.1 hpair.2, ih]
  | case2 high low rest hpair ih =>
    rw [Points.joined, if_neg hpair, List.flatMap_cons, joinPieces_piecesOf_append, ih]
    intro other more hmore hhalves
    rw [List.flatMap_cons] at hmore
    have hother := eq_of_piecesOf_append hmore hhalves.2
    rw [← hother, ← Bool.and_eq_true] at hhalves
    exact hpair hhalves
  | case3 text hshort =>
    rcases text with _ | ⟨high, _ | ⟨low, rest⟩⟩
    · rfl
    · rw [List.flatMap_singleton, ← List.append_nil (piecesOf high),
        joinPieces_piecesOf_append (by simp)]
      rfl
    · exact absurd rfl (hshort high low rest)

theorem isJoined_joined (text : Points) : text.joined.IsJoined :=
  joinPieces_flatMap_piecesOf text ▸ isJoined_joinPieces _

/-! ## Scanning -/

section Scanning

variable {start n : ℕ}

theorem pointOfHex?_digits (h : n < 0x10000) :
    pointOfHex? (Nat.digitChar (n / 4096 % 16)) (Nat.digitChar (n / 256 % 16))
      (Nat.digitChar (n / 16 % 16)) (Nat.digitChar (n % 16)) = some (.ofNat n) := by
  have hjoin : ((n / 4096 % 16 * 16 + n / 256 % 16) * 16 + n / 16 % 16) * 16 + n % 16 = n := by
    omega
  simp only [pointOfHex?, hexValue?_digitChar _ (Nat.mod_lt _ (by norm_num : 0 < 16)),
    Option.bind_eq_bind, Option.bind_some, Option.pure_def, hjoin]

theorem scanPieces_numbered (h : n < 0x10000) (next : Char) (rest : List Char) :
    scanPieces start (numbered n ++ next :: rest) =
      prepend (.numbered (.ofNat n)) 6 (scanPieces start (next :: rest)) := by
  rw [numbered, hexDigits_four]
  simp only [List.cons_append, List.nil_append, scanPieces, pointOfHex?_digits h]

theorem scanPieces_escaped {letter c : Char} (hletter : escaped? letter = some c)
    (rest : List Char) :
    scanPieces start ('\\' :: letter :: rest) = prepend (.plain c) 2 (scanPieces start rest) := by
  have hu : letter ≠ 'u' := by
    rintro rfl
    cases hletter
  rw [scanPieces, hletter]
  exact fun h => hu h

theorem scanPieces_plain {c : Char} (hquote : c ≠ '"') (hslash : c ≠ '\\')
    (hcontrol : ¬ c.toNat < 0x20) (rest : List Char) :
    scanPieces start (c :: rest) = prepend (.plain c) 1 (scanPieces start rest) := by
  rw [scanPieces, if_neg hcontrol]
  all_goals simp_all

/-- A string read so far, with more pieces before it. -/
def prependAll (pieces : List Piece) (count : ℕ) :
    Except Broken (List Piece × ℕ) → Except Broken (List Piece × ℕ) :=
  Except.map fun (further, length) => (pieces ++ further, count + length)

theorem prependAll_singleton (piece : Piece) (count : ℕ) (rest : Except Broken (List Piece × ℕ)) :
    prependAll [piece] count rest = prepend piece count rest := rfl

/-- The pieces of a code point are read from what is printed for it. -/
theorem scanPieces_pointText (point : Point) (next : Char) (rest : List Char) :
    scanPieces start (pointText point ++ next :: rest) =
      prependAll (piecesOf point) (pointText point).length (scanPieces start (next :: rest)) := by
  have hletter : ∀ {letter : Char}, IsPlainPoint point →
      escaped? letter = some (Char.ofNat point.val) →
      scanPieces start (['\\', letter] ++ next :: rest) =
        prependAll (piecesOf point) 2 (scanPieces start (next :: rest)) := by
    intro letter hplain hescaped
    rw [piecesOf, if_pos hplain, prependAll_singleton]
    exact scanPieces_escaped hescaped _
  simp only [pointText]
  split_ifs with h1 h2 h3 h4 h5 h6 h7 h8 h9
  · exact hletter (Or.inr (by rw [h1]; decide)) (by rw [h1]; rfl)
  · exact hletter (Or.inr (by rw [h2]; decide)) (by rw [h2]; rfl)
  · exact hletter (Or.inl (by rw [h3]; decide)) (by rw [h3]; rfl)
  · exact hletter (Or.inl (by rw [h4]; decide)) (by rw [h4]; rfl)
  · exact hletter (Or.inl (by rw [h5]; decide)) (by rw [h5]; rfl)
  · exact hletter (Or.inl (by rw [h6]; decide)) (by rw [h6]; rfl)
  · exact hletter (Or.inl (by rw [h7]; decide)) (by rw [h7]; rfl)
  · have hchar : (Char.ofNat point.val).toNat = point.val :=
      congrArg Fin.val (@Point.ofChar_ofNat point (Or.inl (by omega)))
    have hplain : IsPlainPoint point := Or.inr h8
    rw [piecesOf, if_pos hplain, prependAll_singleton]
    refine scanPieces_plain ?_ ?_ (by omega) _
    · intro h
      exact h1 (by rw [← hchar, h])
    · intro h
      exact h2 (by rw [← hchar, h])
  all_goals
    have hplain : ¬ IsPlainPoint point := by
      rintro (hmem | hrange)
      · simp only [List.mem_cons, List.not_mem_nil, or_false] at hmem
        simp only [Char.toNat, Char.reduceVal, UInt32.reduceToNat] at h3 h4 h5
        omega
      · exact h8 hrange
    rw [piecesOf, if_neg hplain]
  · rw [if_pos h9, length_numbered, scanPieces_numbered h9, prependAll_singleton,
      Point.ofNat_val]
  · obtain ⟨hhigh, hlow, -⟩ := Point.join_halves (not_lt.mp h9)
    rw [Point.isHigh_iff] at hhigh
    rw [Point.isLow_iff] at hlow
    obtain ⟨second, tail, hsecond⟩ : ∃ second tail,
        numbered point.lowHalf.val ++ next :: rest = second :: tail :=
      List.exists_cons_of_ne_nil (by simp)
    rw [if_neg h9, List.append_assoc, hsecond, scanPieces_numbered (by omega), ← hsecond,
      scanPieces_numbered (by omega), Point.ofNat_val, Point.ofNat_val, List.length_append,
      length_numbered, length_numbered]
    cases scanPieces start (next :: rest) with
    | error fault => rfl
    | ok read => simp only [prepend, prependAll, Except.map, ← Nat.add_assoc]; rfl

/-- A text is read from what is printed for it, up to its closing quote, with the points joined that
join. -/
theorem scanString_stringText (text : Points) (rest : List Char) :
    scanString start (text.flatMap pointText ++ '"' :: rest) =
      .ok (text.joined, (text.flatMap pointText).length + 1) := by
  have hpieces : ∀ text : Points, scanPieces start (text.flatMap pointText ++ '"' :: rest) =
      .ok (text.flatMap piecesOf, (text.flatMap pointText).length + 1) := by
    intro text
    induction text with
    | nil => rfl
    | cons point more ih =>
      obtain ⟨next, tail, hnext⟩ : ∃ next tail,
          more.flatMap pointText ++ '"' :: rest = next :: tail :=
        List.exists_cons_of_ne_nil (by simp)
      rw [List.flatMap_cons, List.append_assoc, hnext, scanPieces_pointText, ← hnext, ih]
      simp only [prependAll, Except.map, List.flatMap_cons, List.length_append, Nat.add_assoc]
  rw [scanString, hpieces]
  show Except.ok (joinPieces (text.flatMap piecesOf), _) = _
  rw [joinPieces_flatMap_piecesOf]

end Scanning

end Ringtone.Json
