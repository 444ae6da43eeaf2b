import Mathlib.Tactic
import Ringtone.Value

/-!
# Texts of characters and of code points

A text made of characters reads back as these characters: no code point of it is a surrogate. Such a
text, like every text that comes out of another one, has no high surrogate with a low one behind it;
any other text has one that such pairs join to.
-/

namespace Ringtone.Text

namespace Point

theorem val_ofNat {n : ℕ} (h : n < 0x110000) : (ofNat n).val = n := by
  rw [ofNat, Fin.val_ofNat, Nat.mod_eq_of_lt h]

@[simp]
theorem ofNat_val (point : Point) : ofNat point.val = point := Fin.ofNat_val_eq_self point

theorem val_ofChar (c : Char) : (ofChar c).val = c.toNat := rfl

theorem ofChar_ofNat {point : Point} (h : point.val.isValidChar) :
    ofChar (Char.ofNat point.val) = point := by
  refine Fin.ext ?_
  rw [val_ofChar, Char.ofNat, dif_pos h]
  rfl

theorem isHigh_iff {point : Point} :
    point.isHigh = true ↔ 0xD800 ≤ point.val ∧ point.val < 0xDC00 := by
  rw [isHigh, Bool.and_eq_true, decide_eq_true_eq, decide_eq_true_eq]

theorem isLow_iff {point : Point} :
    point.isLow = true ↔ 0xDC00 ≤ point.val ∧ point.val < 0xE000 := by
  rw [isLow, Bool.and_eq_true, decide_eq_true_eq, decide_eq_true_eq]

/-- A character is no half of a pair. -/
@[simp]
theorem isHigh_ofChar (c : Char) : (ofChar c).isHigh = false := by
  have hvalid : c.toNat.isValidChar := c.valid
  rw [Bool.eq_false_iff, ne_eq, isHigh_iff, val_ofChar]
  rcases hvalid with h | h <;> omega

@[simp]
theorem isLow_ofChar (c : Char) : (ofChar c).isLow = false := by
  have hvalid : c.toNat.isValidChar := c.valid
  rw [Bool.eq_false_iff, ne_eq, isLow_iff, val_ofChar]
  rcases hvalid with h | h <;> omega

/-- The point of a character is the character's and no surrogate. -/
@[simp]
theorem toChar?_ofChar (c : Char) : (ofChar c).toChar? = some c := by
  rw [toChar?, isHigh_ofChar, isLow_ofChar, val_ofChar]
  exact congrArg some (Char.ofNat_toNat c)

theorem eq_ofChar_of_toChar? {point : Point} {c : Char} (h : point.toChar? = some c) :
    point = ofChar c := by
  rw [toChar?] at h
  split_ifs at h with hhalf
  cases h
  rw [Bool.or_eq_true, isHigh_iff, isLow_iff] at hhalf
  have hlt := point.isLt
  refine (ofChar_ofNat ?_).symm
  rw [Nat.isValidChar]
  omega

/-- The point of a pair lies beyond sixteen bits. -/
theorem val_join {high low : Point} (hhigh : high.isHigh = true) (hlow : low.isLow = true) :
    (join high low).val = 0x10000 + (high.val - 0xD800) * 0x400 + (low.val - 0xDC00) := by
  rw [isHigh_iff] at hhigh
  rw [isLow_iff] at hlow
  exact val_ofNat (by omega)

/-- A point beyond sixteen bits is no half of a pair. -/
theorem isHigh_of_le {point : Point} (h : 0x10000 ≤ point.val) : point.isHigh = false := by
  rw [Bool.eq_false_iff, ne_eq, isHigh_iff]
  omega

theorem isLow_of_le {point : Point} (h : 0x10000 ≤ point.val) : point.isLow = false := by
  rw [Bool.eq_false_iff, ne_eq, isLow_iff]
  omega

/-- The halves of a point beyond sixteen bits join to it. -/
theorem join_halves {point : Point} (h : 0x10000 ≤ point.val) :
    point.highHalf.isHigh = true ∧ point.lowHalf.isLow = true ∧
      join point.highHalf point.lowHalf = point := by
  have hlt := point.isLt
  have hhigh : point.highHalf.val = 0xD800 + (point.val - 0x10000) / 0x400 :=
    val_ofNat (by omega)
  have hlow : point.lowHalf.val = 0xDC00 + (point.val - 0x10000) % 0x400 := val_ofNat (by omega)
  have hhighHalf : point.highHalf.isHigh = true := by
    rw [isHigh_iff]
    omega
  have hlowHalf : point.lowHalf.isLow = true := by
    rw [isLow_iff]
    omega
  refine ⟨hhighHalf, hlowHalf, Fin.ext ?_⟩
  rw [val_join hhighHalf hlowHalf]
  omega

end Point

namespace Points

@[simp]
theorem toChars?_ofChars (text : List Char) : toChars? (ofChars text) = some text := by
  induction text with
  | nil => rfl
  | cons c rest ih =>
    rw [toChars?] at ih ⊢
    rw [ofChars, List.map_cons, List.mapM_cons, Point.toChar?_ofChar, ← ofChars, ih]
    rfl

@[simp]
theorem toChars_ofChars (text : List Char) : toChars (ofChars text) = text := by
  induction text with
  | nil => rfl
  | cons c rest ih =>
    rw [toChars] at ih ⊢
    rw [ofChars, List.map_cons, List.flatMap_cons, Point.toChar?_ofChar]
    exact congrArg (c :: ·) ih

@[simp]
theorem toChars_append (first second : Points) :
    toChars (first ++ second) = toChars first ++ toChars second := List.flatMap_append

/-- A text is one of characters exactly if it has no surrogates. -/
theorem exists_eq_ofChars_iff {text : Points} :
    (∃ chars, text = ofChars chars) ↔ ∀ point ∈ text, point.toChar?.isSome = true := by
  constructor
  · rintro ⟨chars, rfl⟩ point hpoint
    obtain ⟨c, _, rfl⟩ := List.mem_map.mp hpoint
    rw [Point.toChar?_ofChar]
    rfl
  · intro h
    induction text with
    | nil => exact ⟨[], rfl⟩
    | cons point rest ih =>
      obtain ⟨hpoint, hrest⟩ := List.forall_mem_cons.mp h
      obtain ⟨c, hc⟩ := Option.isSome_iff_exists.mp hpoint
      obtain ⟨chars, rfl⟩ := ih hrest
      exact ⟨c :: chars, congrArg (· :: ofChars chars) (Point.eq_ofChar_of_toChar? hc)⟩

/-- A surrogate is shown by an escape. -/
theorem backslash_mem_toChars {text : Points} (h : ¬ ∃ chars, text = ofChars chars) :
    '\\' ∈ text.toChars := by
  rw [exists_eq_ofChars_iff] at h
  push Not at h
  obtain ⟨point, hpoint, hchar⟩ := h
  have hnone : point.toChar? = none := by simpa using hchar
  refine List.mem_flatMap.mpr ⟨point, hpoint, ?_⟩
  rw [hnone]
  exact List.mem_cons_self

/-- No high surrogate of a text has a low one right behind it. -/
def IsJoined (text : Points) : Prop :=
  List.IsChain (fun first second => ¬ (first.isHigh = true ∧ second.isLow = true)) text

instance (text : Points) : Decidable text.IsJoined :=
  inferInstanceAs (Decidable (List.IsChain _ text))

theorem isJoined_nil : IsJoined [] := List.IsChain.nil

theorem isJoined_cons {point : Point} {rest : Points} : IsJoined (point :: rest) ↔
    (∀ next ∈ rest.head?, ¬ (point.isHigh = true ∧ next.isLow = true)) ∧ IsJoined rest :=
  List.isChain_cons

theorem isJoined_ofChars (text : List Char) : IsJoined (ofChars text) := by
  induction text with
  | nil => exact isJoined_nil
  | cons c rest ih =>
    refine isJoined_cons.mpr ⟨fun next _ => ?_, ih⟩
    simp

/-- A text with every high surrogate and the low one right behind it joined to one code point. -/
def joined : Points → Points
  | high :: low :: rest =>
    if high.isHigh && low.isLow then Point.join high low :: joined rest
    else high :: joined (low :: rest)
  | text => text

@[simp]
theorem joined_eq_self {text : Points} (h : text.IsJoined) : text.joined = text := by
  induction text using joined.induct with
  | case1 high low rest hpair ih =>
    rw [Bool.and_eq_true] at hpair
    exact absurd hpair ((isJoined_cons.mp h).1 low rfl)
  | case2 high low rest hpair ih =>
    rw [joined, if_neg hpair, ih (isJoined_cons.mp h).2]
  | case3 text hshort =>
    rw [joined]
    exact hshort

end Points

end Ringtone.Text

namespace Ringtone.Value

/-! ## The texts of a value -/

mutual

/-- A value with the points joined that join in its texts and names. Names that become one are one
member, in the place of the first and with the value of the last. -/
def joined : Value → Value
  | .text s => .text s.joined
  | .list items => .list (joinedItems items)
  | .object members => .object (Members.overlay [] (joinedMembers members))
  | value => value

/-- Some values with their points joined. -/
def joinedItems : List Value → List Value
  | [] => []
  | item :: rest => joined item :: joinedItems rest

/-- Some members with their points joined. -/
def joinedMembers : Members → Members
  | [] => []
  | (name, value) :: rest => (name.joined, joined value) :: joinedMembers rest

end

theorem joinedItems_eq_map (items : List Value) : joinedItems items = items.map joined := by
  induction items with
  | nil => rw [joinedItems, List.map_nil]
  | cons item rest ih => rw [joinedItems, ih, List.map_cons]

theorem joinedMembers_eq_map (members : Members) :
    joinedMembers members = members.map fun member => (member.1.joined, member.2.joined) := by
  induction members with
  | nil => rw [joinedMembers, List.map_nil]
  | cons member rest ih =>
    obtain ⟨name, value⟩ := member
    rw [joinedMembers, ih, List.map_cons]

end Ringtone.Value
