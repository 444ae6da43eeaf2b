import Ringtone.Proofs.FileTree
import Ringtone.Session

/-!
# What actions do to a session

The outcome of each action and the session after it, as far as later steps look at them. Messages on
the error output are lines added at its end; an action that does nothing but write such lines, and
perhaps notes that the pitches are known, is said to log. An action is quiet if all that it writes
are such lines, whatever it does to the files.
-/

namespace Ringtone

open Files

namespace Action

variable {α β : Type} {s after : Session}

/-! ## One action after the other -/

@[simp]
theorem perform_pure (a : α) (s : Session) : (pure a : Action α).perform s = (.ok a, s) := rfl

@[simp]
theorem perform_get (s : Session) : (get : Action Session).perform s = (.ok s, s) := rfl

@[simp]
theorem perform_set (new s : Session) : (set new : Action PUnit).perform s = (.ok ⟨⟩, new) := rfl

@[simp]
theorem perform_modify (change : Session → Session) (s : Session) :
    (modify change : Action PUnit).perform s = (.ok ⟨⟩, change s) := rfl

@[simp]
theorem perform_ofExcept (outcome : Except Fault α) (s : Session) :
    (ofExcept outcome : Action α).perform s = (outcome, s) := by
  cases outcome <;> rfl

theorem perform_bind (action : Action α) (next : α → Action β) (s : Session) :
    (action >>= next).perform s =
      ExceptT.bindCont next (action.perform s).1 (action.perform s).2 := rfl

/-- After a success the rest is done with what the first action gave, where that left off. -/
theorem perform_bind_of_ok {action : Action α} {a : α} (h : action.perform s = (.ok a, after))
    (next : α → Action β) : (action >>= next).perform s = (next a).perform after := by
  rw [perform_bind, h]
  rfl

/-- After a fault nothing more is done. -/
theorem perform_bind_of_error {action : Action α} {fault : Fault}
    (h : action.perform s = (.error fault, after)) (next : α → Action β) :
    (action >>= next).perform s = (.error fault, after) := by
  rw [perform_bind, h]
  rfl

/-- The rest of an action that looks at the session is done with the session there is. -/
@[simp]
theorem perform_bind_get (next : Session → Action β) (s : Session) :
    (get >>= next).perform s = (next s).perform s := rfl

/-- The rest of an action that puts another session in place is done in that. -/
@[simp]
theorem perform_bind_set (new : Session) (next : PUnit → Action β) (s : Session) :
    (set new >>= next).perform s = (next ⟨⟩).perform new := rfl

@[simp]
theorem perform_bind_modify (change : Session → Session) (next : PUnit → Action β) (s : Session) :
    (modify change >>= next).perform s = (next ⟨⟩).perform (change s) := rfl

theorem perform_bind_congr {first other : Action α} {mid : Session}
    (h : first.perform s = other.perform mid) (next : α → Action β) :
    (first >>= next).perform s = (other >>= next).perform mid := by
  rw [perform_bind, perform_bind, h]

/-- Two actions one after the other succeed exactly when each of them does. -/
theorem perform_bind_eq_ok_iff {action : Action α} {next : α → Action β} {b : β} {last : Session} :
    (action >>= next).perform s = (.ok b, last) ↔
      ∃ a after, action.perform s = (.ok a, after) ∧ (next a).perform after = (.ok b, last) := by
  constructor
  · intro h
    cases hfirst : action.perform s with
    | mk outcome after =>
      cases outcome with
      | error fault =>
        rw [perform_bind_of_error hfirst] at h
        cases h
      | ok a =>
        rw [perform_bind_of_ok hfirst] at h
        exact ⟨a, after, rfl, h⟩
  · rintro ⟨a, after, hfirst, hnext⟩
    rw [perform_bind_of_ok hfirst, hnext]

/-- What an action did before its fault is not undone for the handler. -/
theorem perform_tryCatch (action : Action α) (handler : Fault → Action α) (s : Session) :
    (tryCatch action handler).perform s =
      match action.perform s with
      | (.ok a, after) => (.ok a, after)
      | (.error fault, after) => (handler fault).perform after := by
  simp only [perform, tryCatch, tryCatchThe, MonadExceptOf.tryCatch, ExceptT.tryCatch, ExceptT.run,
    ExceptT.mk, bind, StateT.bind]
  rcases action s with ⟨_ | _, _⟩ <;> rfl

/-! ## Paths and files -/

/-- No path holds the character that ends paths. -/
def IsPath (path : Path) : Prop := path.text.contains '\x00' = false

theorem mem_intercalate_iff {c mark : Char} (hc : c ≠ mark) (parts : List (List Char)) :
    c ∈ [mark].intercalate parts ↔ ∃ part ∈ parts, c ∈ part := by
  induction parts with
  | nil => simp [List.intercalate]
  | cons first rest ih =>
    cases rest with
    | nil => simp [List.intercalate]
    | cons second rest =>
      rw [List.intercalate_cons_cons, List.mem_append, List.mem_append, ih]
      simp [hc]

/-- The characters of a path as it is written are those of its root and its parts, and the marks
between them. -/
theorem mem_text_iff {c : Char} (hslash : c ≠ '/') (hdot : c ≠ '.') (path : Path) :
    c ∈ path.text ↔ c ∈ path.root ∨ ∃ part ∈ path.parts, c ∈ part := by
  rw [Path.text]
  split_ifs with hempty
  · simp [hempty.1, hempty.2, hdot]
  · rw [List.mem_append, mem_intercalate_iff hslash]

variable {path : Path}

/-- Whether a path can be handed to the system is told by its parts. -/
theorem isPath_iff : IsPath path ↔
    '\x00' ∉ path.root ∧ ∀ part ∈ path.parts, '\x00' ∉ part := by
  rw [IsPath, ← Bool.not_eq_true, List.contains_iff_mem, mem_text_iff (by decide) (by decide)]
  push Not
  rfl

theorem isPath_child {name : String} (hname : '\x00' ∉ name.toList) (h : IsPath path) :
    IsPath (path.child name) := by
  rw [isPath_iff] at h ⊢
  refine ⟨h.1, fun part hpart => ?_⟩
  rcases List.mem_append.mp hpart with hpart | hpart
  · exact h.2 part hpart
  · rwa [List.mem_singleton.mp hpart]

theorem checkPath_of_isPath (h : IsPath path) (s : Session) :
    (checkPath path).perform s = (.ok (), s) := by
  rw [checkPath, if_neg (by rw [h]; simp)]
  rfl

theorem checkPath_of_not_isPath (h : ¬ IsPath path) (s : Session) :
    (checkPath path).perform s = (.error .pathTerminator, s) := by
  rw [checkPath, if_pos (by simpa [IsPath] using h)]
  rfl

theorem ensureDirectory_perform (h : IsPath path) (s : Session) :
    (ensureDirectory path).perform s =
      ((s.files.ensureDirectory s.current path).1.mapError (fileFault path),
        { s with files := (s.files.ensureDirectory s.current path).2 }) := by
  rw [ensureDirectory, perform_bind_of_ok (checkPath_of_isPath h s),
    perform_bind_get]
  cases hensure : s.files.ensureDirectory s.current path with
  | mk outcome files =>
    rw [perform_bind_set]
    cases outcome <;> rfl

/-- Making a directory succeeds exactly when the tree lets it be made, and changes nothing but
the tree. -/
theorem ensureDirectory_eq_ok_iff : (ensureDirectory path).perform s = (.ok (), after) ↔
    IsPath path ∧ s.files.ensureDirectory s.current path = (.ok (), after.files) ∧
      after = { s with files := after.files } := by
  by_cases h : IsPath path
  · rw [ensureDirectory_perform h]
    cases hensure : s.files.ensureDirectory s.current path with
    | mk outcome files =>
      cases outcome with
      | error cause => simp [Except.mapError]
      | ok result =>
        simp only [Except.mapError, Prod.mk.injEq, true_and, h]
        constructor
        · rintro rfl
          exact ⟨rfl, rfl⟩
        · rintro ⟨hfiles, hafter⟩
          rw [hafter, hfiles]
  · rw [ensureDirectory, perform_bind_of_error (checkPath_of_not_isPath h s)]
    simp [h]

/-- Looking whether something is at a path changes nothing. -/
theorem isPresent_perform (h : IsPath path) (s : Session) :
    (isPresent path).perform s =
      ((s.files.isPresent s.current path).mapError (fileFault path), s) := by
  rw [isPresent, perform_bind_get, if_neg (by rw [h]; simp)]
  cases s.files.isPresent s.current path <;> rfl

theorem writeFile_of_not_isPath (h : ¬ IsPath path) (content : List UInt8) (s : Session) :
    (writeFile path content).perform s = (.error .pathTerminator, s) := by
  rw [writeFile, perform_bind_of_error (checkPath_of_not_isPath h s)]

theorem writeFile_of_error {content : List UInt8} {cause : Cause} (h : IsPath path)
    (hwrite : s.files.write s.current path content = .error cause) :
    (writeFile path content).perform s = (.error (fileFault path cause), s) := by
  rw [writeFile, perform_bind_of_ok (checkPath_of_isPath h s), perform_bind_get,
    hwrite]
  rfl

theorem writeFile_of_ok {content : List UInt8} {files : Node} (h : IsPath path)
    (hwrite : s.files.write s.current path content = .ok files) :
    (writeFile path content).perform s = (.ok (), { s with files }) := by
  rw [writeFile, perform_bind_of_ok (checkPath_of_isPath h s), perform_bind_get,
    hwrite]
  rfl

/-- Writing succeeds exactly when the tree takes the content, and changes nothing but the tree. -/
theorem writeFile_eq_ok_iff {content : List UInt8} :
    (writeFile path content).perform s = (.ok (), after) ↔
      IsPath path ∧ s.files.write s.current path content = .ok after.files ∧
        after = { s with files := after.files } := by
  by_cases h : IsPath path
  · cases hwrite : s.files.write s.current path content with
    | error cause =>
      rw [writeFile_of_error h hwrite]
      simp
    | ok files =>
      rw [writeFile_of_ok h hwrite]
      simp only [Prod.mk.injEq, true_and, h, Except.ok.injEq]
      constructor
      · rintro rfl
        exact ⟨rfl, rfl⟩
      · rintro ⟨hfiles, hafter⟩
        rw [hafter, hfiles]
  · rw [writeFile_of_not_isPath h]
    simp [h]

end Action

/-! ## Messages -/

/-- Lines of text. -/
def unlines (lines : List String) : String := String.join (lines.map (· ++ "\n"))

@[simp]
theorem unlines_append (lines more : List String) :
    unlines (lines ++ more) = unlines lines ++ unlines more := by
  simp [unlines]

namespace Session

/-- The later session differs by lines on the error output, and in whether the pitches are known. -/
def Logs (before after : Session) : Prop :=
  ∃ (lines : List String) (pitchesKnown : Bool),
    after = { before with errors := before.errors ++ unlines lines, pitchesKnown }

theorem Logs.refl (s : Session) : s.Logs s := ⟨[], s.pitchesKnown, by simp [unlines]⟩

/-- What is logged on the way is logged as a whole. -/
theorem Logs.trans {first second third : Session} (h : first.Logs second)
    (hnext : second.Logs third) : first.Logs third := by
  obtain ⟨lines, known, rfl⟩ := h
  obtain ⟨more, knownLater, rfl⟩ := hnext
  exact ⟨lines ++ more, knownLater, by simp [unlines_append, String.append_assoc]⟩

section Unchanged

variable {before after : Session} (h : before.Logs after)
include h

@[grind →]
theorem Logs.files_eq : after.files = before.files := by
  obtain ⟨_, _, rfl⟩ := h
  rfl

@[grind →]
theorem Logs.current_eq : after.current = before.current := by
  obtain ⟨_, _, rfl⟩ := h
  rfl

@[grind →]
theorem Logs.environment_eq : after.environment = before.environment := by
  obtain ⟨_, _, rfl⟩ := h
  rfl

@[grind →]
theorem Logs.nesting_eq : after.nesting = before.nesting := by
  obtain ⟨_, _, rfl⟩ := h
  rfl

@[grind →]
theorem Logs.output_eq : after.output = before.output := by
  obtain ⟨_, _, rfl⟩ := h
  rfl

end Unchanged

/-- Nothing has been written but lines on the error output. -/
structure Reports (before after : Session) : Prop where
  output_eq : after.output = before.output
  exists_lines : ∃ lines, after.errors = before.errors ++ unlines lines

theorem Reports.of_eq {before after : Session} (houtput : after.output = before.output)
    (herrors : after.errors = before.errors) : before.Reports after :=
  ⟨houtput, [], by simp [herrors, unlines]⟩

theorem Reports.refl (s : Session) : s.Reports s := .of_eq rfl rfl

theorem Reports.trans {first second third : Session} (h : first.Reports second)
    (hnext : second.Reports third) : first.Reports third := by
  obtain ⟨lines, hlines⟩ := h.exists_lines
  obtain ⟨more, hmore⟩ := hnext.exists_lines
  refine ⟨hnext.output_eq.trans h.output_eq, lines ++ more, ?_⟩
  rw [hmore, hlines, unlines_append, String.append_assoc]

/-- Who only logs writes nothing but lines on the error output. -/
theorem Logs.reports {before after : Session} (h : before.Logs after) : before.Reports after := by
  obtain ⟨lines, _, rfl⟩ := h
  exact ⟨rfl, lines, rfl⟩

end Session

namespace Action

/-- Of two actions one after the other, the outcome is that of the second after the first, and what
they log is logged. -/
theorem exists_perform_bind {α β : Type} {base s : Session} {first : Action α}
    {next : α → Action β} {outcome : Except Fault α} {later : α → Except Fault β}
    (hfirst : ∃ mid, first.perform s = (outcome, mid) ∧ base.Logs mid)
    (hnext : ∀ a mid, ∃ after, (next a).perform mid = (later a, after) ∧ mid.Logs after) :
    ∃ after, (first >>= next).perform s = (outcome >>= later, after) ∧ base.Logs after := by
  obtain ⟨mid, hperform, hlogs⟩ := hfirst
  cases outcome with
  | error fault => exact ⟨mid, perform_bind_of_error hperform next, hlogs⟩
  | ok a =>
    obtain ⟨after, hlater, hmore⟩ := hnext a mid
    exact ⟨after, (perform_bind_of_ok hperform next).trans hlater, hlogs.trans hmore⟩

theorem exists_perform_ofExcept {α : Type} (outcome : Except Fault α) (s : Session) :
    ∃ after, (ofExcept outcome : Action α).perform s = (outcome, after) ∧ s.Logs after :=
  ⟨s, perform_ofExcept outcome s, .refl s⟩

@[simp]
theorem complain_perform (line : String) (s : Session) :
    (complain line).perform s = (.ok ⟨⟩, { s with errors := s.errors ++ line ++ "\n" }) := rfl

theorem logs_complain (line : String) (s : Session) :
    s.Logs { s with errors := s.errors ++ line ++ "\n" } :=
  ⟨[line], s.pitchesKnown, by simp [unlines, String.append_assoc]⟩

theorem warn_perform (part message : String) (s : Session) :
    ∃ after, (warn part message).perform s = (.ok ⟨⟩, after) ∧ s.Logs after :=
  ⟨_, complain_perform _ s, logs_complain _ s⟩

/-- A message for debugging is written or left out, and nothing else happens. -/
theorem debug_perform (part message : String) (s : Session) :
    ∃ after, (debug part message).perform s = (.ok ⟨⟩, after) ∧ s.Logs after := by
  rw [debug, perform_bind_get]
  split_ifs
  · exact ⟨_, complain_perform _ s, logs_complain _ s⟩
  · exact ⟨s, rfl, .refl s⟩

/-! ## Printing code points -/

/-- A line can be written when every code point of it is a character's. -/
theorem unencodable?_eq_none_iff {line : Text.Points} : ∀ {position : ℕ},
    unencodable? position line = none ↔ ∀ point ∈ line, point.toChar?.isSome = true := by
  induction line with
  | nil => simp [unencodable?]
  | cons point rest ih =>
    intro position
    rw [unencodable?, List.forall_mem_cons]
    cases point.toChar? with
    | none => simp
    | some c => simp [ih]

/-- What keeps a line from being written is always a run of surrogates. -/
theorem exists_of_unencodable?_eq_some {line : Text.Points} {fault : Fault} :
    ∀ {position : ℕ}, unencodable? position line = some fault →
      ∃ place length first, fault = .unencodable place length first := by
  induction line with
  | nil => rintro _ ⟨⟩
  | cons point rest ih =>
    intro position h
    rw [unencodable?] at h
    cases hchar : point.toChar? with
    | none =>
      rw [hchar] at h
      exact ⟨_, _, _, (Option.some.inj h).symm⟩
    | some c =>
      rw [hchar] at h
      exact ih h

/-- A line without surrogates is printed. -/
theorem print_of_forall {line : Text.Points} (h : ∀ point ∈ line, point.toChar?.isSome = true)
    (s : Session) : (print line).perform s =
      (.ok ⟨⟩, { s with output := s.output ++ String.ofList line.toChars ++ "\n" }) := by
  rw [print, unencodable?_eq_none_iff.mpr h]
  rfl

/-- A line with a surrogate is not. -/
theorem print_of_not_forall {line : Text.Points}
    (h : ¬ ∀ point ∈ line, point.toChar?.isSome = true) (s : Session) :
    ∃ place length first,
      (print line).perform s = (.error (.unencodable place length first), s) := by
  cases hfault : unencodable? 0 line with
  | none => exact absurd (unencodable?_eq_none_iff.mp hfault) h
  | some fault =>
    obtain ⟨place, length, first, rfl⟩ := exists_of_unencodable?_eq_some hfault
    exact ⟨place, length, first, by rw [print, hfault]; rfl⟩

/-! ## Actions that print nothing -/

section Quiet

variable {α β : Type}

/-- Whatever comes of the action, it writes nothing but lines on the error output. -/
def Quiet (action : Action α) : Prop := ∀ s : Session, s.Reports (action.perform s).2

theorem Quiet.reports {action : Action α} (h : Quiet action) {s after : Session}
    {outcome : Except Fault α} (hperform : action.perform s = (outcome, after)) :
    s.Reports after := by
  have hreports := h s
  rwa [hperform] at hreports

/-- An action that only logs is quiet. -/
theorem quiet_of_logs {action : Action α} {outcome : Session → Except Fault α}
    (h : ∀ s, ∃ after, action.perform s = (outcome s, after) ∧ s.Logs after) : Quiet action := by
  intro s
  obtain ⟨after, hperform, hlogs⟩ := h s
  rw [hperform]
  exact hlogs.reports

theorem quiet_pure (a : α) : Quiet (pure a : Action α) := fun s => .refl s

theorem quiet_get : Quiet (get : Action Session) := fun s => .refl s

theorem quiet_ofExcept (outcome : Except Fault α) : Quiet (ofExcept outcome : Action α) := by
  intro s
  rw [perform_ofExcept]
  exact .refl s

theorem quiet_liftM (outcome : Except Fault α) : Quiet (liftM outcome : Action α) := by
  intro s
  cases outcome <;> exact .refl s

/-- Actions that are quiet are quiet one after the other. -/
theorem Quiet.bind {first : Action α} {next : α → Action β} (hfirst : Quiet first)
    (hnext : ∀ a, Quiet (next a)) : Quiet (first >>= next) := by
  intro s
  cases hperform : first.perform s with
  | mk outcome mid =>
    have hreports := hfirst.reports hperform
    cases outcome with
    | error fault =>
      rw [perform_bind_of_error hperform]
      exact hreports
    | ok a =>
      rw [perform_bind_of_ok hperform]
      exact hreports.trans (hnext a mid)

theorem quiet_warn (part message : String) : Quiet (warn part message) :=
  quiet_of_logs (warn_perform part message)

variable (path : Path)

theorem quiet_ensureDirectory : Quiet (ensureDirectory path) := by
  intro s
  by_cases h : IsPath path
  · rw [ensureDirectory_perform h]
    exact .of_eq rfl rfl
  · rw [ensureDirectory, perform_bind_of_error (checkPath_of_not_isPath h s)]
    exact .refl s

theorem quiet_isPresent : Quiet (isPresent path) := by
  intro s
  by_cases h : IsPath path
  · rw [isPresent_perform h]
    exact .refl s
  · rw [isPresent, perform_bind_get, if_pos (by simpa [IsPath] using h)]
    exact .refl s

theorem quiet_writeFile (content : List UInt8) : Quiet (writeFile path content) := by
  intro s
  by_cases h : IsPath path
  · cases hwrite : s.files.write s.current path content with
    | error cause =>
      rw [writeFile_of_error h hwrite]
      exact .refl s
    | ok files =>
      rw [writeFile_of_ok h hwrite]
      exact .of_eq rfl rfl
  · rw [writeFile_of_not_isPath h]
    exact .refl s

end Quiet

end Action

end Ringtone
