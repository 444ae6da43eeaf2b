import Ringtone.Proofs.SettingsFile

/-!
# Settings at rest

Loading the settings may make directories, and it may put the defaults in the place of a file that
is not there. What it gives is found afterwards, so that loading once more gives the same and leaves
all files as they are. Whether a file is there is asked when the directories are: a path can lead
through the place of the file, and then that place has become a directory.
-/

namespace Ringtone.Settings

open Files

variable {s after : Session} {members : Members}

/-- A directory in the place of the file counts as a file that cannot be read. -/
theorem IsReady.load_of_directory (h : IsReady s)
    (hdirectory : s.files.isDirectory s.current (Places.settingsFile s.environment) = .ok true)
    (hload : load.perform s = (.ok members, after)) : members = defaults := by
  obtain ⟨last, hlast, _⟩ := h.load_of_found (.directory hdirectory)
  rw [hload] at hlast
  exact Except.ok.inj (Prod.mk.inj hlast).1

/-- With something in the place of the file, loading changes no file. -/
theorem IsReady.files_eq_of_load (h : IsReady s)
    (hpresent : s.files.isPresent s.current (Places.settingsFile s.environment) = .ok true)
    (hload : load.perform s = (.ok members, after)) : after.files = s.files := by
  obtain ⟨_, _, hlogs | ⟨habsent, _⟩⟩ := h.load_ok hload
  · exact hlogs.files_eq
  · rw [hpresent] at habsent
    cases habsent

/-- With nothing in the place of the file, the defaults are put there, where they can be read, and
no other place changes. -/
theorem IsReady.writes_defaults_of_load (h : IsReady s)
    (hcurrent : s.files.kindAt? s.current = some .directory)
    (habsent : s.files.isPresent s.current (Places.settingsFile s.environment) = .ok false)
    (hload : load.perform s = (.ok members, after)) :
    members = defaults ∧
      after.files.read s.current (Places.settingsFile s.environment) = .ok defaultBytes ∧
      ∃ place, s.files.placeOf s.current (Places.settingsFile s.environment) = .ok place ∧
        ∀ other, other ≠ place → after.files.kindAt? other = s.files.kindAt? other := by
  rw [h.load_perform habsent, if_neg Bool.false_ne_true] at hload
  obtain ⟨rfl, hwrite⟩ := h.loadNew_perform hload
  obtain ⟨_, hwritten, _⟩ := Action.writeFile_eq_ok_iff.mp hwrite
  obtain ⟨place, hplace, _⟩ := Node.write_eq_ok_iff.mp hwritten
  refine ⟨rfl, Node.read_of_write hwritten, place, hplace, fun other hother => ?_⟩
  rw [Node.kindAt?_of_write hcurrent hwritten hplace other, if_neg hother]

/-- Loading that gives settings brings them to rest: loading once more gives the same and changes no
file. Whatever was there stays as it was, and all else of the session but its log. Once directories
are added on the way to that of the settings, either something is in the place of the file, and no
file changes; or nothing is, and the defaults are given, which are what the file that is written
there says. A directory in that place gives the defaults too. -/
theorem load_comes_to_rest (hcurrent : s.files.kindAt? s.current = some .directory)
    (hload : load.perform s = (.ok members, after)) :
    (∃ again, load.perform after = (.ok members, again) ∧ again.files = after.files) ∧
    s.files.Extends after.files ∧ { s with files := after.files }.Logs after ∧
    ∃ files, (Action.ensureDirectory (Places.settingsDirectory s.environment)).perform s =
        (.ok (), { s with files }) ∧
      s.files.Grows files (files.LeadsThrough s.current
        (Places.settingsDirectory s.environment)) ∧
      (files.isPresent s.current (Places.settingsFile s.environment) = .ok true ∧
          after.files = files ∨
        files.isPresent s.current (Places.settingsFile s.environment) = .ok false ∧
          members = defaults ∧
          after.files.read s.current (Places.settingsFile s.environment) = .ok defaultBytes ∧
          contentsOf s.nesting defaultBytes = .ok members ∧
          ∃ place, files.placeOf s.current (Places.settingsFile s.environment) = .ok place ∧
            ∀ other, other ≠ place → after.files.kindAt? other = files.kindAt? other) ∧
      (files.isDirectory s.current (Places.settingsFile s.environment) = .ok true →
        members = defaults) := by
  obtain ⟨hready, hfound, hprepares⟩ := prepares_of_load hcurrent hload
  obtain ⟨files, hmade, hgrows⟩ := exists_made_of_load hcurrent hload
  have hthere : IsReady { s with files } := (isReady_of_ensureDirectory hmade).1
  have hloaded : load.perform { s with files } = (.ok members, after) :=
    (load_of_made hmade).symm.trans hload
  obtain ⟨again, hagain, hlogs⟩ := hready.load_of_found hfound
  refine ⟨⟨again, hagain, hlogs.files_eq⟩, hprepares.extends, hprepares.logs, files, hmade, hgrows,
    ?_, fun hdirectory => hthere.load_of_directory hdirectory hloaded⟩
  obtain ⟨present, hpresent⟩ := hthere.exists_isPresent_of_load hloaded
  cases present with
  | true => exact Or.inl ⟨hpresent, hthere.files_eq_of_load hpresent hloaded⟩
  | false =>
    obtain ⟨rfl, hread, hothers⟩ :=
      hthere.writes_defaults_of_load (hgrows.keeps _ hcurrent) hpresent hloaded
    exact Or.inr ⟨hpresent, rfl, hread, contentsOf_defaultBytes _, hothers⟩

/-- In an empty tree the file is written, and then it stays. -/
theorem load_comes_to_rest_fresh :
    freshSession.files.kindAt? freshSession.current = some .directory ∧
      ∃ after again, load.perform freshSession = (.ok defaults, after) ∧
        after.files.read freshSession.current (Places.settingsFile freshSession.environment) =
          .ok defaultBytes ∧
        load.perform after = (.ok defaults, again) ∧ again.files = after.files := by
  have hmade : (Action.ensureDirectory
      (Places.settingsDirectory freshSession.environment)).perform freshSession =
        (.ok (), { freshSession with files := .directory [("nc".toList, .directory
          [("config".toList, .directory [])])] }) :=
    Action.ensureDirectory_eq_ok_iff.mpr ⟨rfl, rfl, rfl⟩
  obtain ⟨after, hloaded⟩ := (isReady_of_ensureDirectory hmade).1.load_of_missing rfl
  have hload : load.perform freshSession = (.ok defaults, after) :=
    (load_of_made hmade).trans hloaded
  obtain ⟨⟨again, hagain, hfiles⟩, _, _, files, hsame, _, hplace, _⟩ :=
    load_comes_to_rest rfl hload
  rw [hmade] at hsame
  cases hsame
  obtain ⟨hpresent, _⟩ | ⟨_, _, hread, _⟩ := hplace
  · cases hpresent
  · exact ⟨rfl, after, again, hload, hread, hagain, hfiles⟩

/-- A session in an empty file tree, with a directory for the settings whose path leads through the
place of their file. -/
def roundaboutSession : Session :=
  { freshSession with
    environment := [(directoryVariable, "x/config/config.json/../..".toList)] }

/-- Nothing is in the place of the file, the defaults are given, and yet there is no file to read
afterwards: the place of the file has become a directory. -/
theorem load_through_the_file :
    roundaboutSession.files.isPresent roundaboutSession.current
        (Places.settingsFile roundaboutSession.environment) = .ok false ∧
      ∃ after, load.perform roundaboutSession = (.ok defaults, after) ∧
        after.files.isDirectory after.current (Places.settingsFile after.environment) =
          .ok true ∧
        ∀ bytes, after.files.read after.current (Places.settingsFile after.environment) ≠
          .ok bytes := by
  have hmade : (Action.ensureDirectory
      (Places.settingsDirectory roundaboutSession.environment)).perform roundaboutSession =
        (.ok (), { roundaboutSession with files := .directory [("x".toList, .directory
          [("config".toList, .directory [("config.json".toList, .directory [])])])] }) :=
    Action.ensureDirectory_eq_ok_iff.mpr ⟨rfl, rfl, rfl⟩
  obtain ⟨hready, _⟩ := isReady_of_ensureDirectory hmade
  obtain ⟨after, hloaded, lines, known, rfl⟩ := hready.load_of_found (.directory rfl)
  refine ⟨rfl, _, (load_of_made hmade).trans hloaded, rfl, fun bytes hread => ?_⟩
  cases hread

end Ringtone.Settings
