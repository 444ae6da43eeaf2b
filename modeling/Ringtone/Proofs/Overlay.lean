import Ringtone.Proofs.JsonReading
import Ringtone.Proofs.Obstacles
import Ringtone.Settings

/-!
# Settings laid over the defaults

The defaults keep their order. A section that the file gives as an object is laid over the default
section setting by setting, anything else that it gives stands as it is, and what the defaults do
not have follows in the order of the file.
-/

namespace Ringtone

open Text

namespace Members

/-- Members over others: the names of `base` come first, in their order, each with the value of
`above` where that has one, and the further names of `above` follow in their order. -/
def covered (base above : Members) : Members :=
  base.map (fun member => (member.1, (above.get? member.1).getD member.2)) ++
    beyond above base

theorem overlay_eq_covered {base above : Members} (hbase : (base.map Prod.fst).Nodup)
    (habove : (above.map Prod.fst).Nodup) : overlay base above = covered base above := by
  have hfold := foldl_set_eq_combined (fun _ value => value) hbase habove
  refine (hfold : overlay base above = _).trans (congrArg₂ (· ++ ·) ?_ (List.map_id _))
  refine List.map_congr_left fun member _ => ?_
  cases above.get? member.1 <;> rfl

theorem mem_map_fst_covered {base : Members} {name : Points} (h : name ∈ base.map Prod.fst)
    (above : Members) : name ∈ (covered base above).map Prod.fst := by
  rw [covered, List.map_append, List.map_map]
  exact List.mem_append_left _ h

theorem mem_of_get? {members : Members} {name : Points} {value : Value}
    (h : members.get? name = some value) : (name, value) ∈ members := by
  induction members with
  | nil => cases h
  | cons first rest ih =>
    obtain ⟨other, old⟩ := first
    rw [get?_cons] at h
    split_ifs at h with hsame
    · cases h
      rw [hsame]
      exact List.mem_cons_self
    · exact List.mem_cons_of_mem _ (ih h)

/-- What stands under the name of a member that is laid over. -/
theorem get?_covered {base : Members} {name : Points} {value : Value}
    (h : base.get? name = some value) (above : Members) :
    (covered base above).get? name = some ((above.get? name).getD value) := by
  refine get?_append_of_some ?_ _
  rw [get?_map fun member => (above.get? member.1).getD member.2, h]
  rfl

end Members

namespace Settings

/-- What is given for a default: an object is laid over an object, anything else stands as it is. -/
def overDefault (base given : Value) : Value :=
  match base, given with
  | .object base, .object above => .object (Members.covered base above)
  | _, given => given

/-- The settings of a file over the defaults. -/
def overlaid (given : Members) : Members :=
  defaults.map (fun member =>
      (member.1, ((given.get? member.1).map (overDefault member.2)).getD member.2)) ++
    given.beyond defaults

/-- What stands under the name of a default. -/
theorem get?_overlaid {name : Points} {base : Value} (h : defaults.get? name = some base)
    (given : Members) : (overlaid given).get? name =
      some (((given.get? name).map (overDefault base)).getD base) := by
  refine Members.get?_append_of_some ?_ _
  rw [Members.get?_map fun member =>
    ((given.get? member.1).map (overDefault member.2)).getD member.2, h]
  rfl

theorem nodup_defaults : (defaults.map Prod.fst).Nodup := by decide

/-- The sections of the defaults have distinct names in them. -/
theorem nodup_section : ∀ member ∈ defaults, ∀ base, member.2 = .object base →
    (base.map Prod.fst).Nodup := by
  intro member hmember base hbase
  simp only [defaults, List.mem_cons, List.not_mem_nil, or_false] at hmember
  rcases hmember with rfl | rfl
  · cases hbase
    decide
  · cases hbase
    decide

/-- What becomes of an old value, if there is one, when a new one is laid over it. -/
def laid (old : Option Value) (new : Value) : Value :=
  match old, new with
  | some (.object base), .object above => .object (Members.overlay base above)
  | _, new => new

theorem layOver_eq_set (settings : Members) (name : Points) (value : Value) :
    layOver settings name value = settings.set name (laid (settings.get? name) value) := by
  unfold layOver laid
  split <;> simp_all

/-- Laying the settings of a file over the defaults one by one gives what they are over them. -/
theorem merge_eq_overlaid {nesting : Value.Nesting} {given : Members} {level : ℕ}
    (h : Json.IsReadable nesting level (.object given)) : merge given = overlaid given := by
  cases h with
  | object _ _ hnames hvalues =>
    have hmerge : merge given = given.foldl (fun settings member =>
        settings.set member.1 (laid (settings.get? member.1) member.2)) defaults := by
      unfold merge
      congr 1
      funext settings member
      exact layOver_eq_set settings member.1 member.2
    rw [hmerge, Members.foldl_set_eq_combined laid nodup_defaults hnames, Members.combined,
      overlaid]
    refine congrArg₂ (· ++ ·) (List.map_congr_left fun member hmember => ?_) (List.map_id _)
    cases hget : Members.get? given member.1 with
    | none => rfl
    | some value =>
      simp only [Option.map_some, Option.getD_some]
      cases value with
      | object above =>
        cases hbase : member.2 with
        | object base =>
          have habove := hvalues _ (Members.mem_of_get? hget)
          cases habove with
          | object _ _ hinner _ =>
            rw [laid, overDefault,
              Members.overlay_eq_covered (nodup_section member hmember base hbase) hinner]
        | _ => rfl
      | _ => cases member.2 <;> rfl

end Settings

/-! ## Settings can be written -/

/-- What comes out of a text can be written where there is as much room as there was to read it. -/
theorem Json.IsReadable.obstacle?_eq_none {nesting : Value.Nesting} {level : ℕ} {value : Value}
    (h : IsReadable nesting level value) : value.obstacle? (nesting.levels - level) = none := by
  induction h with
  | int hn => rw [Value.obstacle?_int, if_pos hn]
  | list hlevel _ ih =>
    rw [← Nat.sub_add_cancel (Nat.sub_pos_of_lt hlevel), Nat.sub_sub]
    exact Value.obstacle?_eq_none_of_children (by simp) ih
  | object hlevel _ _ _ ih =>
    rw [← Nat.sub_add_cancel (Nat.sub_pos_of_lt hlevel), Nat.sub_sub]
    exact Value.obstacle?_eq_none_of_children (by simp) (List.forall_mem_map.mpr ih)
  | _ => cases nesting.levels - _ <;> rfl

theorem Json.IsReadable.isWritable {nesting : Value.Nesting} {level : ℕ} {value : Value}
    (h : IsReadable nesting level value) : value.isWritable = true :=
  Value.isWritable_iff.mpr (Value.obstacle?_eq_none_mono h.obstacle?_eq_none
    ((Nat.sub_le _ _).trans nesting.le_levelLimit))

namespace Members

/-- Every value can be written where there is room for so many levels. -/
def AreWritable (levels : ℕ) (members : Members) : Prop :=
  ∀ member ∈ members, member.2.obstacle? levels = none

variable {levels : ℕ} {base above members : Members} {name : Points} {value : Value}

theorem obstacle?_object_eq_none_iff :
    (Value.object members).obstacle? (levels + 1) = none ↔ members.AreWritable levels := by
  rw [Value.obstacle?_eq_of_children (by simp), Value.obstacleOfItems?_eq_none_iff]
  exact List.forall_mem_map

theorem AreWritable.get? (h : members.AreWritable levels) (hget : members.get? name = some value) :
    value.obstacle? levels = none := h _ (mem_of_get? hget)

theorem isWritable_of_get? (h : (Value.object members).isWritable = true)
    (hget : members.get? name = some value) : value.isWritable = true :=
  Value.isWritable_of_mem_children (List.mem_map_of_mem (mem_of_get? hget)) h

theorem AreWritable.covered (hbase : base.AreWritable levels) (habove : above.AreWritable levels) :
    (covered base above).AreWritable levels := by
  intro member hmember
  rcases List.mem_append.mp hmember with hfirst | hbeyond
  · obtain ⟨old, hold, rfl⟩ := List.mem_map.mp hfirst
    cases hget : above.get? old.1 with
    | none => exact hbase old hold
    | some value => exact habove.get? hget
  · exact habove member (List.mem_of_mem_filter hbeyond)

end Members

namespace Settings

open Members

theorem areWritable_defaults (levels : ℕ) : defaults.AreWritable (levels + 1) := by
  have hstyle : defaultStyle = .text (Points.ofString "sine") := rfl
  simp only [AreWritable, defaults, named, List.forall_mem_cons, List.not_mem_nil, false_imp_iff,
    implies_true, and_true, obstacle?_object_eq_none_iff, hstyle, defaultTempo, defaultTuning,
    defaultRate, defaultGap, Value.obstacle?_int]
  refine ⟨⟨if_pos (by decide +kernel), if_pos (by decide +kernel)⟩, if_pos (by decide +kernel), ?_,
    if_pos (by decide +kernel)⟩
  cases levels <;> rfl

/-- Settings that can be written still can be once they are laid over the defaults. -/
theorem areWritable_overlaid {levels : ℕ} {given : Members}
    (h : given.AreWritable (levels + 1)) : (overlaid given).AreWritable (levels + 1) := by
  intro member hmember
  rcases List.mem_append.mp hmember with hfirst | hbeyond
  · obtain ⟨old, hold, rfl⟩ := List.mem_map.mp hfirst
    have hdefault := areWritable_defaults levels old hold
    cases hget : given.get? old.1 with
    | none => exact hdefault
    | some value =>
      have hvalue := h.get? hget
      cases hbase : old.2 with
      | object base =>
        cases value with
        | object above =>
          rw [hbase] at hdefault
          rw [obstacle?_object_eq_none_iff] at hdefault hvalue
          exact obstacle?_object_eq_none_iff.mpr (hdefault.covered hvalue)
        | _ => exact hvalue
      | _ => exact hvalue
  · exact h member (List.mem_of_mem_filter hbeyond)

theorem isWritable_of_areWritable {levels : ℕ} {members : Members}
    (h : members.AreWritable levels) (hle : levels + 1 ≤ Value.levelLimit) :
    (Value.object members).isWritable = true :=
  Value.isWritable_iff.mpr (Value.obstacle?_eq_none_mono (obstacle?_object_eq_none_iff.mpr h) hle)

theorem isWritable_defaults : (Value.object defaults).isWritable = true :=
  isWritable_of_areWritable (areWritable_defaults 0) (by decide)

/-- The settings of a text can be written once they are laid over the defaults. -/
theorem isWritable_overlaid {nesting : Value.Nesting} {given : Members}
    (h : Json.IsReadable nesting 0 (.object given)) :
    (Value.object (overlaid given)).isWritable = true := by
  have hgiven := h.obstacle?_eq_none
  obtain ⟨levels, hlevels⟩ := Nat.exists_eq_add_of_le' nesting.two_le
  rw [Nat.sub_zero, hlevels, obstacle?_object_eq_none_iff] at hgiven
  exact isWritable_of_areWritable (areWritable_overlaid hgiven)
    (hlevels ▸ nesting.le_levelLimit)

end Settings

end Ringtone
