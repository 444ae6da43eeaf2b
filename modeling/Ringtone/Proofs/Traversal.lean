import Mathlib.Data.List.Forall2
import Mathlib.Tactic

/-!
# Traversals that may fail

A traversal succeeds with the results of all items, in order, or fails with the fault of the first
item that has one.
-/

namespace Ringtone

variable {α β ε : Type}

/-! ## One outcome -/

section Outcome

variable {outcome : Except ε α} {change : α → β}

theorem eq_ok_of_toOption {a : α} (h : outcome.toOption = some a) : outcome = .ok a := by
  cases outcome with
  | error fault => cases h
  | ok other => exact congrArg Except.ok (Option.some.inj h)

theorem bind_eq_ok_iff {next : α → Except ε β} {b : β} :
    (outcome >>= next) = .ok b ↔ ∃ a, outcome = .ok a ∧ next a = .ok b := by
  cases outcome <;> simp [bind, Except.bind]

theorem map_eq_ok_iff {b : β} :
    outcome.map change = .ok b ↔ ∃ a, outcome = .ok a ∧ change a = b := by
  cases outcome <;> simp [Except.map]

theorem map_eq_error_iff {fault : ε} :
    outcome.map change = .error fault ↔ outcome = .error fault := by
  cases outcome <;> simp [Except.map]

end Outcome

/-! ## The outcomes of a list -/

variable {f : α → Except ε β} {l : List α}

theorem mapM_eq_ok_iff {results : List β} :
    l.mapM f = .ok results ↔ List.Forall₂ (fun a b => f a = .ok b) l results := by
  induction l generalizing results with
  | nil =>
    cases results with
    | nil => exact ⟨fun _ => .nil, fun _ => rfl⟩
    | cons b results => constructor <;> intro h <;> cases h
  | cons a l ih =>
    rw [List.mapM_cons]
    cases ha : f a with
    | error e =>
      constructor
      · intro h; cases h
      · intro h
        cases h with
        | cons hhead _ => rw [ha] at hhead; cases hhead
    | ok b =>
      cases hl : l.mapM f with
      | error e =>
        constructor
        · intro h; cases h
        · intro h
          cases h with
          | cons _ htail => rw [← ih, hl] at htail; cases htail
      | ok bs =>
        constructor
        · intro h
          cases h
          exact .cons ha (ih.mp hl)
        · intro h
          cases h with
          | cons hhead htail =>
            rw [ha] at hhead
            rw [← ih, hl] at htail
            cases hhead
            cases htail
            rfl

/-- A traversal that succeeds does so at every item. -/
theorem exists_ok_of_mapM {results : List β} (h : l.mapM f = .ok results) {a : α} (ha : a ∈ l) :
    ∃ b, f a = .ok b := by
  rw [mapM_eq_ok_iff] at h
  induction h with
  | nil => exact absurd ha List.not_mem_nil
  | cons hhead _ ih =>
    rcases List.mem_cons.mp ha with rfl | ha
    · exact ⟨_, hhead⟩
    · exact ih ha

theorem mapM_eq_error_iff {e : ε} :
    l.mapM f = .error e ↔ ∃ before a after, l = before ++ a :: after ∧
      (∀ x ∈ before, ∃ b, f x = .ok b) ∧ f a = .error e := by
  induction l with
  | nil =>
    constructor
    · intro h; cases h
    · rintro ⟨before, a, after, h, _⟩
      simp at h
  | cons head l ih =>
    rw [List.mapM_cons]
    cases hhead : f head with
    | error e' =>
      constructor
      · intro h
        cases h
        exact ⟨[], head, l, rfl, by simp, hhead⟩
      · rintro ⟨before, a, after, hl, hbefore, ha⟩
        cases before with
        | nil =>
          obtain ⟨rfl, rfl⟩ := List.cons.inj hl
          rw [hhead] at ha
          cases ha
          rfl
        | cons x before =>
          obtain ⟨rfl, rfl⟩ := List.cons.inj hl
          obtain ⟨b, hb⟩ := hbefore head (by simp)
          rw [hhead] at hb
          cases hb
    | ok b =>
      have hrest : (do let b ← Except.ok b; let bs ← l.mapM f; pure (b :: bs) : Except ε (List β))
          = .error e ↔ l.mapM f = .error e := by
        cases l.mapM f with
        | error e' => exact ⟨fun h => by cases h; rfl, fun h => by cases h; rfl⟩
        | ok bs => exact ⟨fun h => (by cases h), fun h => (by cases h)⟩
      rw [hrest, ih]
      constructor
      · rintro ⟨before, a, after, rfl, hbefore, ha⟩
        exact ⟨head :: before, a, after, rfl, by simpa [hhead] using hbefore, ha⟩
      · rintro ⟨before, a, after, hl, hbefore, ha⟩
        cases before with
        | nil =>
          obtain ⟨rfl, rfl⟩ := List.cons.inj hl
          rw [hhead] at ha
          cases ha
        | cons x before =>
          obtain ⟨rfl, rfl⟩ := List.cons.inj hl
          exact ⟨before, a, after, rfl, fun y hy => hbefore y (List.mem_cons_of_mem _ hy), ha⟩

/-- Results that are each made of something that belongs to the item come from a list of these. -/
theorem forall₂_exists_eq_map_iff {γ : Type} {R : α → β → Prop} {change : β → γ}
    {results : List γ} :
    List.Forall₂ (fun a c => ∃ b, R a b ∧ c = change b) l results ↔
      ∃ found, List.Forall₂ R l found ∧ results = found.map change := by
  constructor
  · intro h
    induction h with
    | nil => exact ⟨[], .nil, rfl⟩
    | cons hhead _ ih =>
      obtain ⟨b, hb, rfl⟩ := hhead
      obtain ⟨found, hfound, rfl⟩ := ih
      exact ⟨b :: found, .cons hb hfound, rfl⟩
  · rintro ⟨found, hfound, rfl⟩
    exact List.forall₂_map_right_iff.mpr (hfound.imp fun _ b hb => ⟨b, hb, rfl⟩)

/-! ## Joined results -/

variable {results : List (List β)} {R : α → List β → Prop} {size : α → ℕ}

theorem length_flatten_of_forall₂ (hsize : ∀ a part, R a part → part.length = size a)
    (h : List.Forall₂ R l results) : results.flatten.length = (l.map size).sum := by
  induction h with
  | nil => rfl
  | cons hhead _ ih =>
    rw [List.flatten_cons, List.length_append, hsize _ _ hhead, ih, List.map_cons, List.sum_cons]

/-- The part of an item begins behind the parts of the items before it, wherever their sizes are
known. -/
theorem exists_part_of_forall₂ (hsize : ∀ a part, R a part → part.length = size a)
    {before after : List α} {a : α} (h : List.Forall₂ R (before ++ a :: after) results) :
    ∃ part, R a part ∧ (results.flatten.drop (before.map size).sum).take (size a) = part := by
  induction before generalizing results with
  | nil =>
    cases h with
    | @cons _ part _ _ hhead _ =>
      refine ⟨part, hhead, ?_⟩
      rw [List.map_nil, List.sum_nil, List.drop_zero, List.flatten_cons,
        List.take_left' (hsize _ _ hhead)]
  | cons first before ih =>
    cases h with
    | @cons _ part _ _ hhead htail =>
      obtain ⟨partOfItem, hitem, hplace⟩ := ih htail
      refine ⟨partOfItem, hitem, ?_⟩
      rw [List.map_cons, List.sum_cons, ← List.drop_drop, List.flatten_cons,
        List.drop_left' (hsize _ _ hhead), hplace]

end Ringtone
