import Ringtone.Places
import Ringtone.Proofs.Numerals
import Ringtone.Proofs.Sessions

/-!
# Paths at which nothing is

The search for a path goes through the numbered names of a moment in turn. The names differ, and a
directory has only so many entries, so that the search comes to a name that is not taken: it ends,
with as many attempts as there are entries and one more. What it ends with is the path of that name,
unless there is no room for it.
-/

namespace Ringtone.Places

open Files Number

/-! ## The names of a moment -/

theorem mem_twoDigits {n : ℕ} {c : Char} (h : c ∈ (twoDigits n).toList) :
    c = '-' ∨ Text.isAsciiDigit c := by
  rw [twoDigits] at h
  split_ifs at h
  · rcases List.mem_cons.mp (by simpa using h) with rfl | hc
    · exact Or.inr rfl
    · exact mem_numeral hc
  · exact mem_numeral h

theorem mem_stamp {moment : Moment} {c : Char} (h : c ∈ (stamp moment).toList) :
    c = '-' ∨ Text.isAsciiDigit c := by
  by_cases hmark : c = '-'
  · exact Or.inl hmark
  · rw [stamp, String.toList_intercalate] at h
    obtain ⟨part, hpart, hc⟩ := (Action.mem_intercalate_iff hmark _).mp h
    simp only [List.map_cons, List.map_nil, List.mem_cons, List.not_mem_nil, or_false] at hpart
    rcases hpart with rfl | rfl | rfl | rfl | rfl | rfl
    · exact mem_numeral hc
    all_goals exact mem_twoDigits hc

/-- What tells the names of a moment apart: nothing for the first, and a number for the others. -/
def mark (index : ℕ) : List Char := if index = 0 then [] else '-' :: (numeral index).toList

theorem toList_renderName (moment : Moment) (index : ℕ) :
    (renderName moment index).toList = (stamp moment).toList ++ mark index ++ ".wav".toList := by
  rw [renderName, mark]
  split_ifs
  · simp
  · simp

theorem mark_injective : Function.Injective mark := by
  intro first second h
  unfold mark at h
  split_ifs at h with hfirst hsecond hsecond
  · rw [hfirst, hsecond]
  · exact_mod_cast numeral_injective (String.toList_injective (List.cons.inj h).2)

/-- No two indices have the same name. -/
theorem renderName_injective (moment : Moment) : Function.Injective (renderName moment) := by
  intro first second h
  have hchars := congrArg String.toList h
  rw [toList_renderName, toList_renderName, List.append_assoc, List.append_assoc] at hchars
  exact mark_injective (List.append_cancel_right (List.append_cancel_left hchars))

theorem renderName_ne_dots (moment : Moment) (index : ℕ) :
    (renderName moment index).toList ≠ ['.', '.'] := by
  intro h
  have hlength := congrArg List.length h
  rw [toList_renderName, List.length_append] at hlength
  have hending : ".wav".toList.length = 4 := rfl
  rw [hending, List.length_cons, List.length_singleton] at hlength
  omega

theorem terminator_notMem_renderName (moment : Moment) (index : ℕ) :
    '\x00' ∉ (renderName moment index).toList := by
  have hplain : ¬ ('\x00' = '-' ∨ Text.isAsciiDigit '\x00' = true) := by decide
  rw [toList_renderName, List.mem_append, List.mem_append, mark]
  rintro ((hstamp | hmark) | hending)
  · exact hplain (mem_stamp hstamp)
  · split_ifs at hmark
    · cases hmark
    · rcases List.mem_cons.mp hmark with hdash | hdigit
      · exact absurd hdash (by decide)
      · exact hplain (mem_numeral hdigit)
  · exact absurd hending (by decide)

/-! ## The search -/

/-- The path of an index for a moment. -/
def renderPath (directory : Path) (moment : Moment) (index : ℕ) : Path :=
  directory.child (renderName moment index)

variable {s : Session} {directory : Path} {moment : Moment} {index stop : ℕ}

theorem isPath_renderPath (h : Action.IsPath directory) :
    Action.IsPath (renderPath directory moment index) :=
  Action.isPath_child (terminator_notMem_renderName moment index) h

/-- Something is at the path of every index before. -/
def TakenBefore (s : Session) (directory : Path) (index : ℕ) : Prop :=
  ∀ earlier < index, s.files.isPresent s.current (renderPath directory s.now earlier) = .ok true

/-- What the search for a path at which nothing is ends with. -/
inductive Search (s : Session) (directory : Path) : Except Fault Path → Prop
  /-- The path of the first index that is not taken. -/
  | free {index : ℕ} {place : Place} (htaken : TakenBefore s directory index)
      (hplace : s.files.placeOf s.current (renderPath directory s.now index) = .ok place)
      (hnone : s.files.kindAt? place = none) :
    Search s directory (.ok (renderPath directory s.now index))
  /-- There is no room for the name of the first index that is not taken. -/
  | noRoom {index : ℕ} (htaken : TakenBefore s directory index)
      (hroom : Node.NoRoom directory (renderName s.now index)) :
    Search s directory (.error (Action.fileFault (renderPath directory s.now index) .nameTooLong))

theorem mem_names_of_get? {entries : Entries} {name : Name}
    (h : Entries.get? entries name ≠ none) : name ∈ entries.map Prod.fst := by
  induction entries with
  | nil => exact absurd rfl h
  | cons first rest ih =>
    obtain ⟨other, node⟩ := first
    rw [Entries.get?] at h
    split_ifs at h with hsame
    · exact List.mem_cons.mpr (Or.inl hsame.symm)
    · exact List.mem_cons_of_mem _ (ih h)

/-- Of more names than a directory has entries one is not taken. -/
theorem exists_not_taken (entries : Entries) {names : ℕ → Name} (h : Function.Injective names) :
    ∃ index ≤ entries.length, Entries.get? entries (names index) = none := by
  by_contra hall
  push Not at hall
  have hnodup : ((List.range (entries.length + 1)).map names).Nodup := List.nodup_range.map h
  have hsubset : (List.range (entries.length + 1)).map names ⊆ entries.map Prod.fst := by
    intro name hname
    obtain ⟨index, hindex, rfl⟩ := List.mem_map.mp hname
    exact mem_names_of_get? (hall index (Nat.lt_succ_iff.mp (List.mem_range.mp hindex)))
  have hlength := (hnodup.subperm hsubset).length_le
  rw [List.length_map, List.length_map, List.length_range] at hlength
  omega

/-- The search stops at an index no greater than the number of entries. -/
theorem exists_stop (h : s.files.isDirectory s.current directory = .ok true) :
    ∃ stop ≤ entryCount s directory, TakenBefore s directory stop ∧
      s.files.isPresent s.current (renderPath directory s.now stop) ≠ .ok true := by
  obtain ⟨place, entries, hplace, hentries⟩ := Node.exists_at?_of_isDirectory h
  have hpresent := fun index => Node.isPresent_child_eq hplace hentries
    (renderName_ne_dots s.now index)
  have hcount : entryCount s directory = entries.length := by
    rw [entryCount, Node.lookup, hplace]
    simp only [bind, Except.bind, hentries]
    rfl
  have hinjective : Function.Injective fun index => (renderName s.now index).toList :=
    fun _ _ hsame => renderName_injective s.now (String.toList_injective hsame)
  obtain ⟨absent, hle, hnone⟩ := exists_not_taken entries hinjective
  have habsent : s.files.isPresent s.current (renderPath directory s.now absent) ≠ .ok true := by
    rw [renderPath, hpresent, hnone]
    split_ifs
    · simp
    · simp
  have hexists : ∃ index,
      s.files.isPresent s.current (renderPath directory s.now index) ≠ .ok true := ⟨_, habsent⟩
  refine ⟨Nat.find hexists, ?_, fun earlier hearlier => ?_, Nat.find_spec hexists⟩
  · rw [hcount]
    exact (Nat.find_min' hexists habsent).trans hle
  · exact not_not.mp (Nat.find_min hexists hearlier)

/-- From an index on, with something at every path before the one it stops at, the search comes to
that one. -/
theorem firstFree_perform {outcome : Except Fault Path} {attempts : ℕ}
    (hpath : Action.IsPath directory)
    (htaken : TakenBefore s directory stop)
    (hend : ∀ more, (firstFree directory s.now (more + 1) stop).perform s = (outcome, s))
    (hindex : index ≤ stop) (hstop : stop < index + attempts) :
    (firstFree directory s.now attempts index).perform s = (outcome, s) := by
  induction attempts generalizing index with
  | zero => omega
  | succ attempts ih =>
    rcases hindex.eq_or_lt with rfl | hlt
    · exact hend attempts
    · have hasked : (Action.isPresent (renderPath directory s.now index)).perform s =
          (.ok true, s) := by
        rw [Action.isPresent_perform (isPath_renderPath hpath), htaken index hlt]
        rfl
      rw [renderPath] at hasked
      rw [firstFree, Action.perform_bind_of_ok hasked, if_pos rfl]
      exact ih hlt (by omega)

/-- In a directory the search ends, and any number of attempts beyond that of the entries is
enough. -/
theorem exists_search (hpath : Action.IsPath directory)
    (h : s.files.isDirectory s.current directory = .ok true) :
    ∃ outcome, Search s directory outcome ∧ ∀ attempts, entryCount s directory < attempts →
      (firstFree directory s.now attempts 0).perform s = (outcome, s) := by
  obtain ⟨stop, hle, htaken, hstop⟩ := exists_stop h
  obtain ⟨place, entries, hplace, hentries⟩ := Node.exists_at?_of_isDirectory h
  have hname := renderName_ne_dots s.now stop
  have hpresent := Node.isPresent_child_eq hplace hentries hname
  have hvalid : Action.IsPath (renderPath directory s.now stop) := isPath_renderPath hpath
  have hasked := Action.isPresent_perform hvalid s
  by_cases hroom : Node.NoRoom directory (renderName s.now stop)
  · rw [if_pos hroom] at hpresent
    rw [renderPath, hpresent] at hasked
    refine ⟨_, .noRoom htaken hroom, fun attempts hattempts =>
      firstFree_perform hpath htaken (fun more => ?_) (Nat.zero_le _) (by omega)⟩
    rw [firstFree, Action.perform_bind_of_error hasked]
    rfl
  · have hchild := Node.placeOf_child_eq hplace hentries hname
    rw [if_neg hroom] at hpresent hchild
    rw [renderPath, hpresent] at hstop
    have habsent : (Entries.get? entries (renderName s.now stop).toList).isSome = false := by
      simpa using hstop
    rw [habsent] at hpresent
    rw [renderPath, hpresent] at hasked
    refine ⟨_, .free htaken hchild (Node.kindAt?_of_not_isPresent hpresent hchild),
      fun attempts hattempts =>
        firstFree_perform hpath htaken (fun more => ?_) (Nat.zero_le _) (by omega)⟩
    rw [firstFree, Action.perform_bind_of_ok hasked, if_neg Bool.false_ne_true]
    rfl

theorem search_of_noRoom (hroom : Node.NoRoom directory (renderName s.now 0)) :
    Search s directory
      (.error (Action.fileFault (renderPath directory s.now 0) .nameTooLong)) :=
  .noRoom (fun earlier hearlier => absurd hearlier (Nat.not_lt_zero earlier)) hroom

/-- What the search ends with is decided by the first index that is not taken. -/
theorem Search.exists_index {outcome : Except Fault Path} (h : Search s directory outcome)
    (hdirectory : s.files.isDirectory s.current directory = .ok true) :
    ∃ index, TakenBefore s directory index ∧
      s.files.isPresent s.current (renderPath directory s.now index) ≠ .ok true ∧
      outcome = if Node.NoRoom directory (renderName s.now index) then
          .error (Action.fileFault (renderPath directory s.now index) .nameTooLong)
        else .ok (renderPath directory s.now index) := by
  obtain ⟨_, _, hat, hentries⟩ := Node.exists_at?_of_isDirectory hdirectory
  cases h with
  | @free index place htaken hplace hnone =>
    have hroom : ¬ Node.NoRoom directory (renderName s.now index) := by
      intro hroom
      rw [renderPath, Node.placeOf_child_eq hat hentries (renderName_ne_dots _ _),
        if_pos hroom] at hplace
      cases hplace
    refine ⟨index, htaken, ?_, (if_neg hroom).symm⟩
    rw [Node.isPresent_of_free hplace hnone]
    simp
  | @noRoom index htaken hroom =>
    refine ⟨index, htaken, ?_, (if_pos hroom).symm⟩
    rw [renderPath, Node.isPresent_child_eq hat hentries (renderName_ne_dots _ _), if_pos hroom]
    simp

/-- The search ends with one thing only. -/
theorem Search.unique {outcome other : Except Fault Path} (h : Search s directory outcome)
    (hother : Search s directory other)
    (hdirectory : s.files.isDirectory s.current directory = .ok true) : outcome = other := by
  obtain ⟨index, htaken, hstop, rfl⟩ := h.exists_index hdirectory
  obtain ⟨otherIndex, hotherTaken, hotherStop, rfl⟩ := hother.exists_index hdirectory
  rcases lt_trichotomy index otherIndex with hlt | rfl | hlt
  · exact absurd (hotherTaken index hlt) hstop
  · rfl
  · exact absurd (htaken otherIndex hlt) hotherStop

/-- Files, directory and moment decide what the search ends with. -/
theorem Search.congr {other : Session} {outcome : Except Fault Path}
    (h : Search s directory outcome) (hfiles : other.files = s.files)
    (hcurrent : other.current = s.current) (hnow : other.now = s.now) :
    Search other directory outcome := by
  have htaken : ∀ {index}, TakenBefore s directory index → TakenBefore other directory index := by
    intro index htaken earlier hearlier
    rw [hfiles, hcurrent, hnow]
    exact htaken earlier hearlier
  cases h with
  | free hbefore hplace hnone =>
    rw [← hfiles, ← hcurrent, ← hnow] at hplace
    rw [← hfiles] at hnone
    rw [← hnow]
    exact .free (htaken hbefore) hplace hnone
  | noRoom hbefore hroom =>
    rw [← hnow] at hroom ⊢
    exact .noRoom (htaken hbefore) hroom

/-- With the directory made, a path for a rendered file is what the search ends with, however many
attempts it is given beyond the number of entries. -/
theorem exists_freshRender {made : Session}
    (hmade : (Action.ensureDirectory (rendersDirectory s.environment)).perform s =
      (.ok (), made)) :
    ∃ outcome, Search made (rendersDirectory s.environment) outcome ∧
      freshRender.perform s = (outcome, made) ∧
      ∀ attempts, entryCount made (rendersDirectory s.environment) < attempts →
        (firstFree (rendersDirectory s.environment) made.now attempts 0).perform made =
          (outcome, made) := by
  obtain ⟨hpath, hensure, hsame⟩ := Action.ensureDirectory_eq_ok_iff.mp hmade
  have hdirectory := Node.isDirectory_of_ensureDirectory hensure
  have hcurrent : made.current = s.current := by rw [hsame]
  rw [← hcurrent] at hdirectory
  obtain ⟨outcome, hsearch, hperform⟩ := exists_search hpath hdirectory
  refine ⟨outcome, hsearch, ?_, hperform⟩
  rw [freshRender, Action.perform_bind_get,
    Action.perform_bind_of_ok hmade, Action.perform_bind_get]
  exact hperform _ (Nat.lt_succ_self _)

theorem freshRender_of_error {made : Session} {fault : Fault}
    (hmade : (Action.ensureDirectory (rendersDirectory s.environment)).perform s =
      (.error fault, made)) : freshRender.perform s = (.error fault, made) := by
  rw [freshRender, Action.perform_bind_get,
    Action.perform_bind_of_error hmade]

end Ringtone.Places
