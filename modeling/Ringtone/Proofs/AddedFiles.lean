import Ringtone.Proofs.CommandRuns

/-!
# Actions that only add files

Making directories and loading the settings change no file that is there, whatever comes of them:
loading writes only where nothing was. So every action that is put together from these, from
messages and from computations leaves all files as they were. From one action to the next the
directory of the session has to be there, and what is added keeps it.
-/

namespace Ringtone

open Files

namespace Session

/-- The later session has every file of the earlier one as it was, and the same directory, variables
and moment. -/
structure Adds (before after : Session) : Prop where
  files : before.files.Extends after.files
  current_eq : after.current = before.current
  environment_eq : after.environment = before.environment
  now_eq : after.now = before.now

variable {s mid after : Session}

theorem Adds.of_eq (hfiles : after.files = s.files) (hcurrent : after.current = s.current)
    (henvironment : after.environment = s.environment) (hnow : after.now = s.now) :
    s.Adds after :=
  ⟨hfiles ▸ .refl _, hcurrent, henvironment, hnow⟩

theorem Adds.refl (s : Session) : s.Adds s := .of_eq rfl rfl rfl rfl

/-- What two actions add one after the other is added by them together. -/
theorem Adds.trans (h : s.Adds mid) (hnext : mid.Adds after) : s.Adds after :=
  ⟨h.files.trans hnext.files, hnext.current_eq.trans h.current_eq,
    hnext.environment_eq.trans h.environment_eq, hnext.now_eq.trans h.now_eq⟩

/-- Lines on the error output touch no file. -/
theorem Logs.adds (h : s.Logs after) : s.Adds after := by
  obtain ⟨_, _, rfl⟩ := h
  exact .of_eq rfl rfl rfl rfl

theorem Adds.keeps (h : s.Adds after) : s.files.Keeps after.files :=
  fun place => h.files place .directory

/-- The directory of the session is there. -/
def IsPlaced (s : Session) : Prop := s.files.kindAt? s.current = some .directory

/-- What is added keeps the directory of the session. -/
theorem IsPlaced.of_adds (h : s.IsPlaced) (hadds : s.Adds after) : after.IsPlaced := by
  rw [IsPlaced, hadds.current_eq]
  exact hadds.files _ _ h

end Session

namespace Action

variable {α β : Type} {s after : Session}

/-- Whatever comes of the action, the files that are there stay as they are. -/
def OnlyAdds (action : Action α) : Prop := ∀ s : Session, s.IsPlaced → s.Adds (action.perform s).2

theorem OnlyAdds.adds {action : Action α} {outcome : Except Fault α} (h : OnlyAdds action)
    (hs : s.IsPlaced) (hperform : action.perform s = (outcome, after)) : s.Adds after := by
  have hadds := h s hs
  rwa [hperform] at hadds

/-- An action that only logs adds nothing, and so only adds. -/
theorem onlyAdds_of_logs {action : Action α} {outcome : Session → Except Fault α}
    (h : ∀ s, ∃ after, action.perform s = (outcome s, after) ∧ s.Logs after) :
    OnlyAdds action := by
  intro s _
  obtain ⟨after, hperform, hlogs⟩ := h s
  rw [hperform]
  exact hlogs.adds

theorem onlyAdds_pure (a : α) : OnlyAdds (pure a : Action α) := fun s _ => .refl s

theorem onlyAdds_ofExcept (outcome : Except Fault α) : OnlyAdds (ofExcept outcome : Action α) :=
  onlyAdds_of_logs (exists_perform_ofExcept outcome)

theorem onlyAdds_liftM (outcome : Except Fault α) : OnlyAdds (liftM outcome : Action α) := by
  intro s _
  cases outcome <;> exact .refl s

/-- Actions that only add do so one after the other: the directory of the session is kept between
them. -/
theorem OnlyAdds.bind {first : Action α} {next : α → Action β} (hfirst : OnlyAdds first)
    (hnext : ∀ a, OnlyAdds (next a)) : OnlyAdds (first >>= next) := by
  intro s hs
  cases hperform : first.perform s with
  | mk outcome mid =>
    have hadds := hfirst.adds hs hperform
    cases outcome with
    | error fault =>
      rw [perform_bind_of_error hperform]
      exact hadds
    | ok a =>
      rw [perform_bind_of_ok hperform]
      exact hadds.trans (hnext a mid (hs.of_adds hadds))

/-- Making a directory only adds, also where it fails half-way. -/
theorem onlyAdds_ensureDirectory (path : Path) : OnlyAdds (ensureDirectory path) := by
  intro s hs
  by_cases h : IsPath path
  · rw [ensureDirectory_perform h]
    exact ⟨(Node.grows_ensureDirectory hs path).extends, rfl, rfl, rfl⟩
  · rw [ensureDirectory, perform_bind_of_error (checkPath_of_not_isPath h s)]
    exact .refl s

end Action

namespace Settings

variable {s after : Session}

/-- Reading the settings, or ignoring what cannot be read, touches no file. -/
theorem onlyAdds_loadFound (path : Path) : Action.OnlyAdds (loadFound path) := by
  intro s _
  cases hread : s.files.read s.current path with
  | ok bytes =>
    obtain ⟨after, hload, hlogs⟩ := loadFound_of_read hread
    rw [hload]
    exact hlogs.adds
  | error cause =>
    obtain ⟨after, hload, hlogs⟩ := loadFound_of_error hread
    rw [hload]
    exact hlogs.adds

/-- Preparing the settings only adds. -/
theorem Prepares.adds (h : Prepares s after) : s.Adds after := by
  refine ⟨h.extends, h.logs.current_eq, h.logs.environment_eq, ?_⟩
  obtain ⟨_, _, hafter⟩ := h.logs
  rw [hafter]

/-- With the directory there, loading only adds to the files. -/
theorem IsReady.adds_load (h : IsReady s) (hs : s.IsPlaced) : s.Adds (load.perform s).2 := by
  cases hpresent : s.files.isPresent s.current (Places.settingsFile s.environment) with
  | error cause =>
    have hasked := Action.isPresent_perform h.isPath_file s
    rw [hpresent] at hasked
    rw [load_eq, Action.perform_bind_get,
      Action.perform_bind_of_ok h.ensureDirectory, Action.perform_bind_of_error hasked]
    exact .refl s
  | ok present =>
    cases present with
    | true =>
      rw [h.load_perform hpresent, if_pos rfl]
      exact onlyAdds_loadFound _ s hs
    | false =>
      obtain ⟨after, hload⟩ := h.load_of_missing hpresent
      rw [hload]
      exact (prepares_of_load hs hload).2.2.adds

/-- Loading only adds, whatever comes of it. -/
theorem onlyAdds_load : Action.OnlyAdds load := by
  intro s hs
  cases hmade : (Action.ensureDirectory (Places.settingsDirectory s.environment)).perform s with
  | mk outcome made =>
    have hadds := (Action.onlyAdds_ensureDirectory _).adds hs hmade
    cases outcome with
    | error fault =>
      rw [load_eq, Action.perform_bind_get,
        Action.perform_bind_of_error hmade]
      exact hadds
    | ok _ =>
      rw [load_of_made hmade]
      exact hadds.trans ((isReady_of_ensureDirectory hmade).1.adds_load (hs.of_adds hadds))

theorem onlyAdds_rendering : Action.OnlyAdds rendering := by
  unfold rendering
  exact onlyAdds_load.bind fun _ => Action.onlyAdds_pure _

/-- The settings of the composer are looked up without touching a file that is there. -/
theorem onlyAdds_composer : Action.OnlyAdds composer := by
  unfold composer
  exact onlyAdds_load.bind fun _ => (Action.onlyAdds_of_logs (wholeVariable?_perform _)).bind
    fun _ => (Action.onlyAdds_of_logs (wholeVariable?_perform _)).bind fun _ =>
      (Action.onlyAdds_liftM _).bind fun _ => (Action.onlyAdds_liftM _).bind fun _ =>
        Action.onlyAdds_pure _

end Settings

namespace Commands

theorem onlyAdds_composerFor (options : ScoreOptions) :
    Action.OnlyAdds (composerFor options) := by
  unfold composerFor
  exact Settings.onlyAdds_composer.bind fun _ => Action.onlyAdds_ofExcept _

theorem onlyAdds_compileScore (composer : Composer) (score : List Char) :
    Action.OnlyAdds (compileScore composer score) :=
  Action.onlyAdds_of_logs (compileScore_perform composer score)

end Commands

end Ringtone
