import Mathlib.Tactic
import Ringtone.Fault

/-!
# What keeps a value from being written

A value can be written if no part of it lies too deep within it and no whole number among its parts
has too many digits. What keeps it from being written is one of the two, and a part shows it.
-/

namespace Ringtone

open Number

namespace Value

/-! ## Parts -/

/-- The values that stand directly within a value: the items of a list, or what an object has under
its names. -/
def children : Value → List Value
  | .list items => items
  | .object members => members.map Prod.snd
  | _ => []

/-- A value stands so many levels below another one. -/
inductive Part (part : Value) : (depth : ℕ) → (value : Value) → Prop
  /-- A value is a part of itself. -/
  | self : Part part 0 part
  /-- What is part of a child is a part, one level deeper. -/
  | child {depth : ℕ} {child value : Value} (hmem : child ∈ value.children)
      (h : Part part depth child) : Part part (depth + 1) value

theorem sizeOf_lt_of_mem_children {child value : Value} (h : child ∈ value.children) :
    sizeOf child < sizeOf value := by
  cases value with
  | list items => exact (List.sizeOf_lt_of_mem h).trans_le (by simp [children])
  | object members =>
    obtain ⟨member, hmember, rfl⟩ := List.mem_map.mp h
    have hlt := List.sizeOf_lt_of_mem hmember
    have hsplit : sizeOf member = 1 + sizeOf member.1 + sizeOf member.2 := rfl
    have hobject : sizeOf (object members) = 1 + sizeOf members := by simp
    omega
  | _ => cases h

/-- What a value has once all its children have it, every value has. -/
theorem induction_children {motive : Value → Prop}
    (step : ∀ value, (∀ child ∈ value.children, motive child) → motive value) (value : Value) :
    motive value :=
  step value fun child hmem =>
    have := sizeOf_lt_of_mem_children hmem
    induction_children step child
termination_by sizeOf value

/-! ## Obstacles -/

theorem obstacleOfMembers?_eq (levels : ℕ) (members : Members) :
    obstacleOfMembers? levels members = obstacleOfItems? levels (members.map Prod.snd) := by
  induction members with
  | nil => cases levels <;> rfl
  | cons member rest ih =>
    cases levels with
    | zero => rfl
    | succ levels =>
      rw [obstacleOfMembers?, ih, List.map_cons, obstacleOfItems?]

/-- What keeps a value other than a number from being written keeps a child from it. -/
theorem obstacle?_eq_of_children {value : Value} (h : ∀ n, value ≠ .int n) (levels : ℕ) :
    value.obstacle? levels = obstacleOfItems? levels value.children := by
  cases value with
  | int n => exact absurd rfl (h n)
  | list items => rw [obstacle?, children]
  | object members => rw [obstacle?, obstacleOfMembers?_eq, children]
  | _ => cases levels <;> rfl

@[simp]
theorem obstacleOfItems?_eq_none_iff {levels : ℕ} {items : List Value} :
    obstacleOfItems? (levels + 1) items = none ↔ ∀ item ∈ items, item.obstacle? levels = none := by
  induction items with
  | nil => simp [obstacleOfItems?]
  | cons item rest ih => simp [obstacleOfItems?, ih]

theorem exists_of_obstacleOfItems?_eq_some {levels : ℕ} {items : List Value} {obstacle : Obstacle}
    (h : obstacleOfItems? (levels + 1) items = some obstacle) :
    ∃ item ∈ items, item.obstacle? levels = some obstacle := by
  induction items with
  | nil => cases h
  | cons item rest ih =>
    rw [obstacleOfItems?, Option.or_eq_some_iff] at h
    rcases h with hitem | ⟨_, hrest⟩
    · exact ⟨item, List.mem_cons_self, hitem⟩
    · obtain ⟨other, hmem, hother⟩ := ih hrest
      exact ⟨other, List.mem_cons_of_mem _ hmem, hother⟩

/-- A part shows why a value cannot be written: a whole number with too many digits that is not too
deep, or a part that is. -/
inductive Shows (levels : ℕ) (value : Value) : Obstacle → Prop
  | numeral {n : ℤ} {depth : ℕ} (h : Part (.int n) depth value) (hdepth : depth ≤ levels)
      (hlong : Number.isWritable n = false) : Shows levels value .numeral
  | nesting {part : Value} {depth : ℕ} (h : Part part depth value) (hdepth : levels < depth) :
    Shows levels value .nesting

theorem Shows.of_child {levels : ℕ} {child value : Value} {obstacle : Obstacle}
    (hmem : child ∈ value.children) (h : Shows levels child obstacle) :
    Shows (levels + 1) value obstacle := by
  cases h with
  | numeral h hdepth hlong => exact .numeral (.child hmem h) (by omega) hlong
  | nesting h hdepth => exact .nesting (.child hmem h) (by omega)

theorem shows_of_obstacle?_eq_some (value : Value) : ∀ {levels : ℕ} {obstacle : Obstacle},
    value.obstacle? levels = some obstacle → Shows levels value obstacle := by
  induction value using induction_children with
  | step value ih =>
    intro levels obstacle h
    by_cases hint : ∃ n, value = .int n
    · obtain ⟨n, rfl⟩ := hint
      rw [obstacle?] at h
      split_ifs at h with hn
      cases h
      exact .numeral .self (Nat.zero_le levels) (Bool.eq_false_of_not_eq_true hn)
    · rw [obstacle?_eq_of_children (not_exists.mp hint)] at h
      cases levels with
      | zero =>
        cases hchildren : value.children with
        | nil => rw [hchildren] at h; cases h
        | cons child rest =>
          rw [hchildren] at h
          cases h
          exact .nesting (.child (by rw [hchildren]; exact List.mem_cons_self) .self) Nat.one_pos
      | succ levels =>
        obtain ⟨child, hmem, hchild⟩ := exists_of_obstacleOfItems?_eq_some h
        exact (ih child hmem hchild).of_child hmem

/-- A value that can be written has no part that would keep it from that. -/
theorem Part.of_obstacle?_eq_none {part value : Value} {depth : ℕ} (h : Part part depth value) :
    ∀ {levels : ℕ}, value.obstacle? levels = none →
      depth ≤ levels ∧ part.obstacle? (levels - depth) = none := by
  induction h with
  | self => exact fun hnone => ⟨Nat.zero_le _, hnone⟩
  | @child depth child value hmem _ ih =>
    intro levels hnone
    have hint : ∀ n, value ≠ .int n := by
      rintro n rfl
      cases hmem
    rw [obstacle?_eq_of_children hint] at hnone
    cases levels with
    | zero =>
      cases hchildren : value.children with
      | nil => rw [hchildren] at hmem; cases hmem
      | cons _ _ => rw [hchildren] at hnone; cases hnone
    | succ levels =>
      obtain ⟨hdepth, hpart⟩ := ih (obstacleOfItems?_eq_none_iff.mp hnone child hmem)
      exact ⟨by omega, by rwa [Nat.add_sub_add_right]⟩

/-- A value can be written exactly if its parts are not too deep and its whole numbers not too
long. -/
theorem obstacle?_eq_none_iff {levels : ℕ} {value : Value} :
    value.obstacle? levels = none ↔ (∀ part depth, Part part depth value → depth ≤ levels) ∧
      ∀ n depth, Part (.int n) depth value → Number.isWritable n = true := by
  constructor
  · refine fun hnone => ⟨fun part depth h => (h.of_obstacle?_eq_none hnone).1, fun n depth h => ?_⟩
    have hn := (h.of_obstacle?_eq_none hnone).2
    rw [obstacle?] at hn
    split_ifs at hn with hwritable
    exact hwritable
  · rintro ⟨hdepths, hnumbers⟩
    cases hobstacle : value.obstacle? levels with
    | none => rfl
    | some obstacle =>
      cases shows_of_obstacle?_eq_some value hobstacle with
      | numeral h _ hlong => exact absurd (hnumbers _ _ h) (by simp [hlong])
      | nesting h hdepth => exact absurd (hdepths _ _ h) (by omega)

theorem isWritable_iff {value : Value} :
    value.isWritable = true ↔ value.obstacle? levelLimit = none := by
  rw [isWritable, Option.isNone_iff_eq_none]

/-- Where there is more room, what could be written still can be. -/
theorem obstacle?_eq_none_mono {value : Value} {levels more : ℕ} (h : value.obstacle? levels = none)
    (hle : levels ≤ more) : value.obstacle? more = none := by
  rw [obstacle?_eq_none_iff] at h ⊢
  exact ⟨fun part depth hpart => (h.1 part depth hpart).trans hle, h.2⟩

theorem isWritable_of_mem_children {child value : Value} (hmem : child ∈ value.children)
    (h : value.isWritable = true) : child.isWritable = true := by
  have hpart := (Part.child hmem .self).of_obstacle?_eq_none
    (isWritable_iff.mp h)
  exact isWritable_iff.mpr (obstacle?_eq_none_mono hpart.2 (Nat.sub_le _ _))

theorem obstacle?_int (levels : ℕ) (n : ℤ) :
    (Value.int n).obstacle? levels = if Number.isWritable n then none else some .numeral := by
  cases levels <;> rfl

/-- A list or an object can be written if its children can where there is room for one level
less. -/
theorem obstacle?_eq_none_of_children {value : Value} (h : ∀ n, value ≠ .int n) {levels : ℕ}
    (hchildren : ∀ child ∈ value.children, child.obstacle? levels = none) :
    value.obstacle? (levels + 1) = none := by
  rw [obstacle?_eq_of_children h, obstacleOfItems?_eq_none_iff]
  exact hchildren

@[simp]
theorem isWritable_int (n : ℤ) : (Value.int n).isWritable = Number.isWritable n := by
  rw [isWritable, obstacle?_int]
  cases Number.isWritable n <;> rfl

/-- Nothing in a value is met that lies too deep where there is room for so many levels. -/
def Fits (levels : ℕ) (value : Value) : Prop := value.obstacle? levels ≠ some .nesting

theorem fits_int {levels : ℕ} (n : ℤ) : (Value.int n).Fits levels := by
  rw [Fits, obstacle?_int]
  split_ifs <;> rintro ⟨⟩

theorem fits_ofChars {levels : ℕ} (text : List Char) : (Value.ofChars text).Fits levels := by
  cases levels <;> rintro ⟨⟩

theorem fits_of_isWritable {value : Value} (h : value.isWritable = true) :
    value.Fits levelLimit := by
  rw [Fits, isWritable_iff.mp h]
  rintro ⟨⟩

end Value

/-! ## Faults about values -/

/-- A fault about a value that can be written is raised as it is. -/
theorem Fault.ofNote_of_isWritable {fault : NoteFault} (h : fault.given.isWritable = true) :
    ofNote fault = .note fault := by
  rw [ofNote, ofNoteWithin, aboutWithin, Value.isWritable_iff.mp h]

/-- A fault about a whole number does not depend on the room for the message. -/
theorem Fault.ofNoteWithin_int {fault : NoteFault} {n : ℤ} (h : fault.given = .int n)
    (levels : ℕ) :
    ofNoteWithin levels fault =
      if Number.isWritable n then .note fault else .unwritableNumeral := by
  rw [ofNoteWithin, aboutWithin, h, Value.obstacle?_int]
  cases Number.isWritable n <;> rfl

end Ringtone
