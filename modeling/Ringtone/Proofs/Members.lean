import Mathlib.Tactic
import Ringtone.Value

/-!
# Members of an object

Setting members one after the other is, for distinct names, what it looks like: every name that is
there keeps its place, with what the new value makes of the old one, and the new names follow in
their own order.
-/

namespace Ringtone.Members

open Text

@[simp, grind =]
theorem get?_nil (wanted : Points) : get? [] wanted = none := rfl

@[simp, grind =]
theorem get?_cons (name : Points) (value : Value) (rest : Members) (wanted : Points) :
    get? ((name, value) :: rest) wanted = if name = wanted then some value else rest.get? wanted :=
  rfl

@[simp, grind =]
theorem set_nil (name : Points) (value : Value) : set [] name value = [(name, value)] := rfl

@[simp, grind =]
theorem set_cons (other : Points) (old : Value) (rest : Members) (name : Points) (value : Value) :
    set ((other, old) :: rest) name value =
      if other = name then (name, value) :: rest else (other, old) :: rest.set name value :=
  rfl

/-- Setting a member keeps the names in their places and adds a new one at the end. -/
@[grind =]
theorem map_fst_set (members : Members) (name : Points) (value : Value) :
    (members.set name value).map Prod.fst =
      if name ∈ members.map Prod.fst then members.map Prod.fst
      else members.map Prod.fst ++ [name] := by
  induction members with
  | nil => rfl
  | cons member rest ih => grind

/-- Distinct names stay distinct. -/
theorem nodup_set {members : Members} (h : (members.map Prod.fst).Nodup) (name : Points)
    (value : Value) : ((members.set name value).map Prod.fst).Nodup := by
  grind

theorem mem_set {members : Members} {name : Points} {value : Value} {member : Points × Value}
    (h : member ∈ members.set name value) : member ∈ members ∨ member = (name, value) := by
  induction members with
  | nil => exact Or.inr (List.mem_singleton.mp h)
  | cons first rest ih => grind

/-- A member of a new name comes last. -/
theorem set_of_notMem {members : Members} {name : Points} (h : name ∉ members.map Prod.fst)
    (value : Value) : members.set name value = members ++ [(name, value)] := by
  induction members with
  | nil => rfl
  | cons first rest ih => grind

theorem get?_of_notMem {members : Members} {name : Points} (h : name ∉ members.map Prod.fst) :
    members.get? name = none := by
  induction members with
  | nil => rfl
  | cons first rest ih => grind

/-- Under distinct names every member is found. -/
theorem get?_of_mem {members : Members} (hnames : (members.map Prod.fst).Nodup)
    {member : Points × Value} (h : member ∈ members) : members.get? member.1 = some member.2 := by
  induction members with
  | nil => cases h
  | cons first rest ih => grind

theorem get?_append_of_some {first : Members} {name : Points} {value : Value}
    (h : first.get? name = some value) (second : Members) :
    get? (first ++ second) name = some value := by
  induction first with
  | nil => cases h
  | cons member rest ih => grind

@[simp]
theorem get?_map (change : Points × Value → Value) (members : Members) (name : Points) :
    get? (members.map fun member => (member.1, change member)) name =
      (members.get? name).map fun value => change (name, value) := by
  induction members with
  | nil => rfl
  | cons member rest ih => grind

/-- A member of a name that is there is set in its place. -/
theorem set_of_mem {members : Members} (hnames : (members.map Prod.fst).Nodup) {name : Points}
    (h : name ∈ members.map Prod.fst) (value : Value) :
    members.set name value =
      members.map fun member => if member.1 = name then (name, value) else member := by
  induction members with
  | nil => cases h
  | cons first rest ih =>
    obtain ⟨other, old⟩ := first
    rw [List.map_cons, List.nodup_cons] at hnames
    simp only [set, List.map_cons]
    split_ifs with hsame
    · congr 1
      refine (List.map_id _).symm.trans (List.map_congr_left fun member hmember => ?_)
      have hne : member.1 ≠ name := fun heq =>
        hnames.1 (List.mem_map.mpr ⟨member, hmember, heq.trans hsame.symm⟩)
      rw [if_neg hne, id]
    · rw [ih hnames.2 (List.mem_of_ne_of_mem (Ne.symm hsame) h)]

/-- The members whose names others do not have. -/
def beyond (above base : Members) : Members :=
  above.filter fun member => member.1 ∉ base.map Prod.fst

section Folding

variable (combine : Option Value → Value → Value)

/-- Members with others set one after the other, each to what `combine` makes of the old value and
the new one. -/
def combined (base above : Members) : Members :=
  base.map (fun member => (member.1,
      match above.get? member.1 with
      | some value => combine (some member.2) value
      | none => member.2)) ++
    (beyond above base).map fun member => (member.1, combine none member.2)

/-- For distinct names, the places of the names that are there and the order of the others are
kept. -/
theorem foldl_set_eq_combined {base above : Members} (hbase : (base.map Prod.fst).Nodup)
    (habove : (above.map Prod.fst).Nodup) :
    above.foldl (fun members member =>
        members.set member.1 (combine (members.get? member.1) member.2)) base =
      combined combine base above := by
  induction above generalizing base with
  | nil => simp [combined, beyond, get?]
  | cons first rest ih =>
    obtain ⟨name, value⟩ := first
    rw [List.map_cons, List.nodup_cons] at habove
    have hfirst : Members.get? rest name = none := get?_of_notMem habove.1
    rw [List.foldl_cons, ih (nodup_set hbase _ _) habove.2]
    unfold combined beyond
    rw [map_fst_set]
    by_cases hmem : name ∈ base.map Prod.fst
    · rw [if_pos hmem, set_of_mem hbase hmem, List.map_map,
        List.filter_cons_of_neg (by simpa using hmem)]
      refine congrArg (· ++ _) (List.map_congr_left fun member hmember => ?_)
      rw [Function.comp_apply, get?_cons]
      by_cases hsame : member.1 = name
      · subst hsame
        rw [if_pos rfl, if_pos rfl, hfirst, get?_of_mem hbase hmember]
      · rw [if_neg hsame, if_neg (Ne.symm hsame)]
    · rw [if_neg hmem, set_of_notMem hmem, get?_of_notMem hmem, List.map_append, List.map_singleton,
        List.filter_cons_of_pos (by simpa using hmem), List.map_cons, List.append_assoc,
        List.singleton_append, hfirst]
      congr 1
      · refine List.map_congr_left fun member hmember => ?_
        have hne : name ≠ member.1 := fun heq => hmem (heq ▸ List.mem_map_of_mem hmember)
        rw [get?_cons, if_neg hne]
      · refine congrArg (_ :: List.map _ ·) (List.filter_congr fun member hmember => ?_)
        have hne : member.1 ≠ name := fun heq =>
          habove.1 (List.mem_map.mpr ⟨member, hmember, heq⟩)
        simp [hne]

end Folding

/-! ## Members over others -/

section Over

variable {base above : Members}

/-- Members of distinct names stay as they are over none. -/
theorem overlay_nil (h : (above.map Prod.fst).Nodup) : overlay [] above = above := by
  have hnil : (([] : Members).map Prod.fst).Nodup := List.nodup_nil
  have hfold : overlay [] above = combined (fun _ value => value) [] above :=
    foldl_set_eq_combined (fun _ value => value) hnil h
  rw [hfold]
  simp [combined, beyond]

theorem nodup_overlay (h : (base.map Prod.fst).Nodup) (above : Members) :
    ((overlay base above).map Prod.fst).Nodup := by
  induction above generalizing base with
  | nil => exact h
  | cons first rest ih => exact ih (nodup_set h _ _)

theorem mem_overlay {member : Points × Value} (h : member ∈ overlay base above) :
    member ∈ base ∨ member ∈ above := by
  induction above generalizing base with
  | nil => exact Or.inl h
  | cons first rest ih =>
    rcases ih h with hset | hrest
    · rcases mem_set hset with hbase | rfl
      · exact Or.inl hbase
      · exact Or.inr List.mem_cons_self
    · exact Or.inr (List.mem_cons_of_mem _ hrest)

end Over

end Ringtone.Members
