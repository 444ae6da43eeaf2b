import Mathlib.Tactic
import Ringtone.Text.Utf8

/-!
# Reading UTF-8

The bytes that are read are the bytes of some characters, no others, and they are read as these
characters: reading takes back writing.
-/

namespace Ringtone.Text.Utf8

theorem toNat_val_ofNat {n : ℕ} (h : n.isValidChar) : (Char.ofNat n).val.toNat = n := by
  rw [Char.ofNat, dif_pos h]
  rfl

theorem ofNat_eq {n : ℕ} (byte : UInt8) (h : n = byte.toNat) : UInt8.ofNat n = byte := by
  rw [h, UInt8.ofNat_toNat]

/-! ## What is read was written -/

section Reading

variable {a b c d : UInt8}

theorem isContinuation_iff {byte : ℕ} :
    isContinuation byte = true ↔ 0x80 ≤ byte ∧ byte < 0xC0 := by
  simp [isContinuation]

theorem encodeChar_one (ha : a.toNat < 0x80) :
    String.utf8EncodeChar (Char.ofNat a.toNat) = [a] := by
  have hvalue := toNat_val_ofNat (n := a.toNat) (Or.inl (by omega))
  rw [String.utf8EncodeChar, hvalue, if_pos (by omega), UInt8.ofNat_toNat]

theorem encodeChar_two (hlow : 0xC2 ≤ a.toNat) (hhigh : a.toNat < 0xE0)
    (hb : isContinuation b.toNat = true) :
    String.utf8EncodeChar (Char.ofNat (a.toNat % 0x20 * 0x40 + b.toNat % 0x40)) = [a, b] := by
  rw [isContinuation_iff] at hb
  have hvalue := toNat_val_ofNat (n := a.toNat % 0x20 * 0x40 + b.toNat % 0x40) (Or.inl (by omega))
  rw [String.utf8EncodeChar, hvalue, if_neg (by omega), if_pos (by omega), ofNat_eq a,
    ofNat_eq b]
  all_goals omega

/-- What a second byte after a lead of three or four bytes is. -/
theorem isSecond_iff {lead byte : ℕ} : isSecond lead byte = true ↔
    (0x80 ≤ byte ∧ byte < 0xC0) ∧ (lead = 0xE0 → 0xA0 ≤ byte) ∧ (lead = 0xED → byte < 0xA0) ∧
      (lead = 0xF0 → 0x90 ≤ byte) ∧ (lead = 0xF4 → byte < 0x90) := by
  rw [isSecond, Bool.and_eq_true, isContinuation_iff]
  refine and_congr_right fun _ => ?_
  split_ifs <;> simp <;> omega

theorem encodeChar_three (hlow : 0xE0 ≤ a.toNat) (hhigh : a.toNat < 0xF0)
    (hb : isSecond a.toNat b.toNat = true) (hc : isContinuation c.toNat = true) :
    String.utf8EncodeChar (Char.ofNat
      ((a.toNat % 0x10 * 0x40 + b.toNat % 0x40) * 0x40 + c.toNat % 0x40)) = [a, b, c] := by
  rw [isContinuation_iff] at hc
  rw [isSecond_iff] at hb
  have hvalue := toNat_val_ofNat
    (n := (a.toNat % 0x10 * 0x40 + b.toNat % 0x40) * 0x40 + c.toNat % 0x40)
    (by unfold Nat.isValidChar; omega)
  rw [String.utf8EncodeChar, hvalue, if_neg (by omega), if_neg (by omega), if_pos (by omega),
    ofNat_eq a, ofNat_eq b, ofNat_eq c]
  all_goals omega

theorem encodeChar_four (hlow : 0xF0 ≤ a.toNat) (hhigh : a.toNat < 0xF5)
    (hb : isSecond a.toNat b.toNat = true) (hc : isContinuation c.toNat = true)
    (hd : isContinuation d.toNat = true) :
    String.utf8EncodeChar (Char.ofNat
      (((a.toNat % 8 * 0x40 + b.toNat % 0x40) * 0x40 + c.toNat % 0x40) * 0x40 + d.toNat % 0x40)) =
        [a, b, c, d] := by
  rw [isContinuation_iff] at hc hd
  rw [isSecond_iff] at hb
  have hvalue := toNat_val_ofNat
    (n := ((a.toNat % 8 * 0x40 + b.toNat % 0x40) * 0x40 + c.toNat % 0x40) * 0x40 + d.toNat % 0x40)
    (by unfold Nat.isValidChar; omega)
  rw [String.utf8EncodeChar, hvalue, if_neg (by omega), if_neg (by omega), if_neg (by omega),
    ofNat_eq a, ofNat_eq b, ofNat_eq c, ofNat_eq d]
  all_goals omega

theorem encode_cons (c : Char) (rest : List Char) :
    encode (c :: rest) = String.utf8EncodeChar c ++ encode rest := List.flatMap_cons

/-- What follows a character is read on its own. -/
theorem encode_of_map {position : ℕ} {bytes more : List UInt8} {c : Char} {text : List Char}
    (ih : ∀ rest, decodeFrom position more = .ok rest → encode rest = more)
    (hchar : String.utf8EncodeChar c ++ more = bytes)
    (h : (decodeFrom position more).map (c :: ·) = .ok text) : encode text = bytes := by
  cases hmore : decodeFrom position more with
  | error fault =>
    rw [hmore] at h
    cases h
  | ok rest =>
    rw [hmore] at h
    cases h
    rw [encode_cons, ih rest hmore, hchar]

theorem encode_of_decodeFrom {position : ℕ} {bytes : List UInt8} {text : List Char}
    (h : decodeFrom position bytes = .ok text) : encode text = bytes := by
  fun_induction decodeFrom position bytes generalizing text with
  | case1 =>
    cases h
    rfl
  | case2 position a rest lead ha =>
    rename_i ih
    exact encode_of_map (fun _ => ih) (by rw [encodeChar_one ha]; rfl) h
  | case5 position a lead ha hlead b rest second hshort hb =>
    rename_i ih
    refine encode_of_map (fun _ => ih) ?_ h
    rw [encodeChar_two (by omega) hshort hb]
    rfl
  | case10 position a lead ha hlead b second hshort hb c rest third hc hlong =>
    rename_i ih
    refine encode_of_map (fun _ => ih) ?_ h
    rw [encodeChar_three (by omega) hlong (by simpa using hb) (by simpa using hc)]
    rfl
  | case13 position a lead ha hlead b second hshort hb c third hc hlong d rest fourth hd =>
    rename_i ih
    refine encode_of_map (fun _ => ih) ?_ h
    rw [encodeChar_four (by omega) (by omega) (by simpa using hb) (by simpa using hc)
      (by simpa using hd)]
    rfl
  | _ => cases h

end Reading

/-! ## What is written is read -/

@[simp]
theorem toNat_ofNat_byte {n : ℕ} (h : n < 0x100) : (UInt8.ofNat n).toNat = n := by
  rw [UInt8.toNat_ofNat', Nat.mod_eq_of_lt h]

theorem ofNat_val {n : ℕ} {c : Char} (h : n = c.val.toNat) : Char.ofNat n = c := by
  rw [h]
  exact Char.ofNat_toNat c

theorem decodeFrom_encodeChar (position : ℕ) (c : Char) (rest : List UInt8) :
    decodeFrom position (String.utf8EncodeChar c ++ rest) =
      (decodeFrom (position + (String.utf8EncodeChar c).length) rest).map (c :: ·) := by
  have hvalid : c.val.toNat < 0xD800 ∨ 0xDFFF < c.val.toNat ∧ c.val.toNat < 0x110000 := c.valid
  rw [String.utf8EncodeChar]
  set v := c.val.toNat with hv
  split_ifs with hone htwo hthree
  · rw [List.singleton_append, decodeFrom.eq_def]
    dsimp only
    rw [toNat_ofNat_byte (by omega), if_pos (by omega), ofNat_val hv]
    rfl
  · rw [List.cons_append, List.singleton_append, decodeFrom, toNat_ofNat_byte (by omega)]
    dsimp only
    rw [toNat_ofNat_byte (by omega), if_neg (by omega), if_neg (by omega), if_pos (by omega),
      if_pos (isContinuation_iff.mpr (by omega)), ofNat_val (c := c) (by omega)]
    rfl
  · have hsecond : isSecond (v / 4096 % 16 + 224) (v / 64 % 64 + 128) = true :=
      isSecond_iff.mpr (by omega)
    rw [List.cons_append, List.cons_append, List.singleton_append, decodeFrom,
      toNat_ofNat_byte (by omega)]
    dsimp only
    rw [toNat_ofNat_byte (by omega), if_neg (by omega), if_neg (by omega), if_neg (by omega),
      hsecond, if_neg (by decide), toNat_ofNat_byte (by omega), isContinuation_iff.mpr (by omega),
      if_neg (by decide), if_pos (by omega), ofNat_val (c := c) (by omega)]
    rfl
  · have hsecond : isSecond (v / 262144 % 8 + 240) (v / 4096 % 64 + 128) = true :=
      isSecond_iff.mpr (by omega)
    rw [List.cons_append, List.cons_append, List.cons_append, List.singleton_append, decodeFrom,
      toNat_ofNat_byte (by omega)]
    dsimp only
    rw [toNat_ofNat_byte (by omega), if_neg (by omega), if_neg (by omega), if_neg (by omega),
      hsecond, if_neg (by decide), toNat_ofNat_byte (by omega), isContinuation_iff.mpr (by omega),
      if_neg (by decide), if_neg (by omega), toNat_ofNat_byte (by omega),
      isContinuation_iff.mpr (by omega), if_neg (by decide), ofNat_val (c := c) (by omega)]
    rfl

theorem decodeFrom_encode (position : ℕ) (text : List Char) :
    decodeFrom position (encode text) = .ok text := by
  induction text generalizing position with
  | nil => rfl
  | cons c rest ih =>
    rw [encode_cons, decodeFrom_encodeChar, ih]
    rfl

/-- The bytes that are read are those of the characters that are read. -/
theorem decode_eq_ok_iff {bytes : List UInt8} {text : List Char} :
    decode bytes = .ok text ↔ bytes = encode text :=
  ⟨fun h => (encode_of_decodeFrom h).symm, fun h => h ▸ decodeFrom_encode 0 text⟩

end Ringtone.Text.Utf8
