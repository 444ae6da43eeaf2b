import Ringtone.Proofs.JsonRoundTrip
import Ringtone.Proofs.Overlay
import Ringtone.Proofs.Sessions
import Ringtone.Proofs.Utf8

/-!
# Saving and loading settings

What is saved is read back, laid over the defaults. Loading goes through unless the bytes of the
file are not UTF-8, or the reader of JSON comes to a numeral or to a nesting that is beyond its
limits: of these it does not say that the text is malformed, and the program ends.
-/

namespace Ringtone.Settings

open Files Text

/-! ## What the bytes of the file give -/

/-- The settings that bytes give where texts are read so many levels deep, or the fault that ends
the program. -/
def contentsOf (nesting : Value.Nesting) (bytes : List UInt8) : Except Fault Members :=
  match Utf8.decode bytes with
  | .error fault => .error (.encoding fault)
  | .ok decoded =>
    match Json.readWithin nesting (unifyLineEnds decoded) with
    | .ok (.object given) => .ok (merge given)
    | .ok _ => .ok defaults
    | .error (.malformed _ _) => .ok defaults
    | .error (.longNumeral digits) => .error (.unreadableNumeral digits)
    | .error .nesting => .error .nesting

theorem ofBytes_perform (path : String) (bytes : List UInt8) (s : Session) :
    ∃ after, (ofBytes path bytes).perform s = (contentsOf s.nesting bytes, after) ∧
      s.Logs after := by
  unfold ofBytes contentsOf
  cases Utf8.decode bytes with
  | error fault => exact ⟨s, rfl, .refl s⟩
  | ok decoded =>
    dsimp only
    rw [Action.perform_bind_get]
    cases hread : Json.readWithin s.nesting (unifyLineEnds decoded) with
    | ok value =>
      cases value with
      | object given => exact ⟨s, rfl, .refl s⟩
      | _ =>
        obtain ⟨after, hwarn, hlogs⟩ := Action.warn_perform part
          ("Ignoring config " ++ path ++ ": expected a JSON object") s
        exact ⟨after, Action.perform_bind_of_ok hwarn _, hlogs⟩
    | error fault =>
      cases fault with
      | malformed reason position =>
        obtain ⟨after, hwarn, hlogs⟩ := Action.warn_perform part
          ("Ignoring unreadable config " ++ path ++ ": " ++
            Json.faultMessage (unifyLineEnds decoded) reason position) s
        exact ⟨after, Action.perform_bind_of_ok hwarn _, hlogs⟩
      | longNumeral digits => exact ⟨s, rfl, .refl s⟩
      | nesting => exact ⟨s, rfl, .refl s⟩

theorem unifyLineEnds_of_plainText {text : List Char} (h : Json.PlainText text) :
    unifyLineEnds text = text := by
  induction text with
  | nil => rfl
  | cons c rest ih =>
    obtain ⟨hc, hrest⟩ := List.forall_mem_cons.mp h
    have hne : c ≠ '\r' := by
      rintro rfl
      exact absurd hc (by decide)
    rw [unifyLineEnds, ih hrest]
    · rintro _ rfl
      exact absurd rfl hne
    · exact hne

/-- What a saved value is loaded as. -/
def restored : Value → Members
  | .object given => overlaid given
  | _ => defaults

variable {nesting : Value.Nesting}

theorem contentsOf_saved {value : Value} (h : Json.IsSavable nesting 0 value) :
    contentsOf nesting (Utf8.encode (Json.indented value)) = .ok (restored value.joined) := by
  have hplain := h.plainText .indented 0
  have hjoined := h.isReadable_joined
  rw [contentsOf, Utf8.decode_eq_ok_iff.mpr rfl]
  dsimp only
  rw [Json.indented, unifyLineEnds_of_plainText hplain, h.read_print]
  generalize value.joined = loaded at hjoined
  cases loaded with
  | object given => rw [restored, ← merge_eq_overlaid hjoined]
  | _ => rfl

/-! ## Loading -/

variable {s after : Session}

/-- The directory of the settings is there. -/
structure IsReady (s : Session) : Prop where
  isPath : Action.IsPath (Places.settingsDirectory s.environment)
  isDirectory : s.files.isDirectory s.current (Places.settingsDirectory s.environment) = .ok true

/-- What loading finds in the place of the file. -/
inductive Found (s : Session) : Except Fault Members → Prop
  /-- A file. -/
  | file {bytes : List UInt8}
      (h : s.files.read s.current (Places.settingsFile s.environment) = .ok bytes) :
      Found s (contentsOf s.nesting bytes)
  /-- A directory, which counts as a file that cannot be read. -/
  | directory
      (h : s.files.isDirectory s.current (Places.settingsFile s.environment) = .ok true) :
      Found s (.ok defaults)

theorem IsReady.isPath_file (h : IsReady s) :
    Action.IsPath (Places.settingsFile s.environment) :=
  Action.isPath_child (by decide) h.isPath

theorem IsReady.of_logs (h : IsReady s) (hlogs : s.Logs after) : IsReady after := by
  obtain ⟨_, _, rfl⟩ := hlogs
  exact ⟨h.isPath, h.isDirectory⟩

theorem Found.congr {outcome : Except Fault Members} (h : Found s outcome)
    (hfiles : after.files = s.files) (hcurrent : after.current = s.current)
    (henvironment : after.environment = s.environment) (hnesting : after.nesting = s.nesting) :
    Found after outcome := by
  cases h with
  | file h =>
    rw [← hnesting]
    exact .file (by rw [hfiles, hcurrent, henvironment, h])
  | directory h => exact .directory (by rw [hfiles, hcurrent, henvironment, h])

theorem Found.of_logs {outcome : Except Fault Members} (h : Found s outcome)
    (hlogs : s.Logs after) : Found after outcome :=
  h.congr hlogs.files_eq hlogs.current_eq hlogs.environment_eq hlogs.nesting_eq

theorem IsReady.ensureDirectory (h : IsReady s) :
    (Action.ensureDirectory (Places.settingsDirectory s.environment)).perform s = (.ok (), s) :=
  Action.ensureDirectory_eq_ok_iff.mpr
    ⟨h.isPath, Node.ensureDirectory_of_isDirectory h.isDirectory, rfl⟩

/-- Loading where something is in the place of the file. -/
def loadFound (path : Path) : Action Members := do
  let session ← get
  match session.files.read session.current path with
  | .ok bytes => ofBytes path.toString bytes
  | .error cause =>
    let fault : Files.Fault := { cause, path := path.text }
    Action.warn part
      ("Ignoring unreadable config " ++ path.toString ++ ": " ++ fault.message)
    return defaults

/-- Loading where nothing is in the place of the file. -/
def loadNew : Action Members := do
  save (.object defaults)
  return defaults

theorem load_eq : load = (do
    let environment := (← get).environment
    Action.ensureDirectory (Places.settingsDirectory environment)
    if ← Action.isPresent (Places.settingsFile environment) then
      loadFound (Places.settingsFile environment)
    else loadNew) := rfl

theorem quiet_save (value : Value) : Action.Quiet (save value) := by
  unfold save
  exact Action.quiet_get.bind fun _ => (Action.quiet_ensureDirectory _).bind fun _ =>
    Action.quiet_writeFile _ _

theorem quiet_loadFound (path : Path) : Action.Quiet (loadFound path) := by
  unfold loadFound
  refine Action.quiet_get.bind fun session => ?_
  cases session.files.read session.current path with
  | ok bytes => exact Action.quiet_of_logs (ofBytes_perform _ bytes)
  | error cause => exact (Action.quiet_warn _ _).bind fun _ => Action.quiet_pure _

theorem quiet_load : Action.Quiet load := by
  rw [load_eq]
  refine Action.quiet_get.bind fun session => (Action.quiet_ensureDirectory _).bind fun _ =>
    (Action.quiet_isPresent _).bind fun present => ?_
  split_ifs
  · exact quiet_loadFound _
  · exact (quiet_save _).bind fun _ => Action.quiet_pure _

/-- Loading, once the directory is there. -/
theorem IsReady.load_perform (h : IsReady s) {present : Bool}
    (hpresent : s.files.isPresent s.current (Places.settingsFile s.environment) = .ok present) :
    load.perform s =
      (if present then loadFound (Places.settingsFile s.environment) else loadNew).perform s := by
  have hasked : (Action.isPresent (Places.settingsFile s.environment)).perform s =
      (.ok present, s) := by
    rw [Action.isPresent_perform h.isPath_file, hpresent]
    rfl
  rw [load_eq, Action.perform_bind_get,
    Action.perform_bind_of_ok h.ensureDirectory, Action.perform_bind_of_ok hasked]

theorem loadFound_of_read {path : Path} {bytes : List UInt8}
    (h : s.files.read s.current path = .ok bytes) :
    ∃ after, (loadFound path).perform s = (contentsOf s.nesting bytes, after) ∧ s.Logs after := by
  rw [loadFound, Action.perform_bind_get, h]
  exact ofBytes_perform _ bytes s

theorem loadFound_of_error {path : Path} {cause : Cause}
    (h : s.files.read s.current path = .error cause) :
    ∃ after, (loadFound path).perform s = (.ok defaults, after) ∧ s.Logs after := by
  rw [loadFound, Action.perform_bind_get, h]
  obtain ⟨after, hwarn, hlogs⟩ := Action.warn_perform part ("Ignoring unreadable config " ++
    path.toString ++ ": " ++ (Files.Fault.mk cause path.text).message) s
  exact ⟨after, Action.perform_bind_of_ok hwarn _, hlogs⟩

/-- With the directory there, loading gives what is found and changes no file. -/
theorem IsReady.load_of_found (h : IsReady s) {outcome : Except Fault Members}
    (hfound : Found s outcome) : ∃ after, load.perform s = (outcome, after) ∧ s.Logs after := by
  cases hfound with
  | file hread =>
    rw [h.load_perform (Node.isPresent_of_read hread)]
    exact loadFound_of_read hread
  | directory hdirectory =>
    rw [h.load_perform (Node.isPresent_of_isDirectory hdirectory)]
    exact loadFound_of_error (Node.read_of_isDirectory hdirectory)

/-! ## Saving -/

theorem save_eq_ok_iff {value : Value} {saved : Session} :
    (save value).perform s = (.ok (), saved) ↔ ∃ made,
      (Action.ensureDirectory (Places.settingsDirectory s.environment)).perform s =
        (.ok (), made) ∧
      (Action.writeFile (Places.settingsFile s.environment)
        (Utf8.encode (Json.indented value))).perform made = (.ok (), saved) := by
  rw [save, Action.perform_bind_get, Action.perform_bind_eq_ok_iff]
  constructor
  · rintro ⟨_, made, hmade, hwrite⟩
    exact ⟨made, hmade, hwrite⟩
  · rintro ⟨made, hmade, hwrite⟩
    exact ⟨_, made, hmade, hwrite⟩

theorem isReady_of_ensureDirectory {made : Session}
    (h : (Action.ensureDirectory (Places.settingsDirectory s.environment)).perform s =
      (.ok (), made)) : IsReady made ∧ made.environment = s.environment := by
  obtain ⟨hpath, hensure, hmade⟩ := Action.ensureDirectory_eq_ok_iff.mp h
  rw [hmade]
  exact ⟨⟨hpath, Node.isDirectory_of_ensureDirectory hensure⟩, rfl⟩

/-- With the directory made, loading goes on as it would if begun from there. -/
theorem load_of_made {made : Session} (hmade : (Action.ensureDirectory
      (Places.settingsDirectory s.environment)).perform s = (.ok (), made)) :
    load.perform s = load.perform made := by
  obtain ⟨hready, henvironment⟩ := isReady_of_ensureDirectory hmade
  have hagain := hready.ensureDirectory
  rw [load_eq, Action.perform_bind_get,
    Action.perform_bind_of_ok hmade, Action.perform_bind_get,
    Action.perform_bind_of_ok hagain, henvironment]

/-- Writing the file leaves the directory there, and what is written is found. -/
theorem IsReady.found_of_write {bytes : List UInt8} (h : IsReady s)
    (hwrite : (Action.writeFile (Places.settingsFile s.environment) bytes).perform s =
      (.ok (), after)) : IsReady after ∧ Found after (contentsOf s.nesting bytes) := by
  obtain ⟨_, hfiles, hafter⟩ := Action.writeFile_eq_ok_iff.mp hwrite
  have hnesting : s.nesting = after.nesting := by
    rw [hafter]
  rw [hafter]
  obtain ⟨place, hplace, hdirectory⟩ := Node.isDirectory_eq_true_iff.mp h.isDirectory
  have hkeeps : s.files.Keeps after.files := Node.keeps_of_write hfiles
  exact ⟨⟨h.isPath, Node.isDirectory_eq_true_iff.mpr
    ⟨place, hkeeps.placeOf hplace, hkeeps place hdirectory⟩⟩,
    hnesting ▸ .file (Node.read_of_write hfiles)⟩

/-! ## What loading leaves behind -/

/-- The bytes of the file with the defaults. -/
def defaultBytes : List UInt8 := Utf8.encode (Json.indented (.object defaults))

theorem isReadable_defaults (nesting : Value.Nesting) :
    Json.IsReadable nesting 0 (.object defaults) := by
  have hstyle : defaultStyle = .text (Points.ofString "sine") := rfl
  have hfirst : 0 < nesting.levels := Nat.two_pos.trans_le nesting.two_le
  have hsecond : 1 < nesting.levels := Nat.one_lt_two.trans_le nesting.two_le
  refine .object hfirst (by decide) nodup_defaults ?_
  simp only [defaults, named, List.forall_mem_cons, List.not_mem_nil, false_imp_iff, implies_true,
    and_true]
  refine ⟨.object hsecond (by decide) (by decide) ?_,
    .object hsecond (by decide) (by decide) ?_⟩
  · simp only [List.forall_mem_cons, List.not_mem_nil, false_imp_iff, implies_true, and_true]
    exact ⟨.int (by decide +kernel), .int (by decide +kernel)⟩
  · simp only [List.forall_mem_cons, List.not_mem_nil, false_imp_iff, implies_true, and_true]
    exact ⟨.int (by decide +kernel), hstyle ▸ .text (by decide), .int (by decide +kernel)⟩

theorem contentsOf_defaultBytes (nesting : Value.Nesting) :
    contentsOf nesting defaultBytes = .ok defaults := by
  have hreadable := isReadable_defaults nesting
  rw [defaultBytes, contentsOf_saved hreadable.isSavable, hreadable.joined_eq]
  rfl

/-- What loading puts in a place where nothing was: a directory on the way to that of the settings,
or the file with the defaults. -/
def Fills (s : Session) (tree : Node) (place : Place) : Prop :=
  tree.kindAt? place = some .directory ∧
      tree.LeadsThrough s.current (Places.settingsDirectory s.environment) place ∨
    tree.placeOf s.current (Places.settingsFile s.environment) = .ok place ∧
      tree.kindAt? place = some (.file defaultBytes)

theorem Fills.of_keeps {tree changed : Node} {place : Place} (h : Fills s tree place)
    (hkeeps : tree.Keeps changed) (hsame : changed.kindAt? place = tree.kindAt? place) :
    Fills s changed place := by
  rcases h with ⟨hdirectory, names, hnames, hlocate⟩ | ⟨hplace, hfile⟩
  · exact Or.inl ⟨hsame.trans hdirectory, names, hnames, hkeeps.locate hlocate⟩
  · exact Or.inr ⟨hkeeps.placeOf hplace, hsame.trans hfile⟩

/-- The later session differs by lines on the error output, and in its files by what loading puts
where nothing was. -/
structure Prepares (before after : Session) : Prop where
  logs : { before with files := after.files }.Logs after
  files : ∀ place, after.files.kindAt? place = before.files.kindAt? place ∨
    before.files.kindAt? place = none ∧ Fills before after.files place

theorem Prepares.extends (h : Prepares s after) : s.files.Extends after.files := by
  intro place kind hplace
  rcases h.files place with hsame | ⟨hnone, _⟩
  · rw [hsame, hplace]
  · rw [hnone] at hplace
    cases hplace

theorem Prepares.keeps (h : Prepares s after) : s.files.Keeps after.files :=
  fun place => h.extends place .directory

/-- With the directory there and nothing in the place of the file, the defaults are put there. -/
theorem IsReady.loadNew_perform {members : Members} (h : IsReady s)
    (hloaded : loadNew.perform s = (.ok members, after)) : members = defaults ∧
      (Action.writeFile (Places.settingsFile s.environment) defaultBytes).perform s =
        (.ok (), after) := by
  rw [loadNew, Action.perform_bind_eq_ok_iff] at hloaded
  obtain ⟨_, saved, hsave, hreturn⟩ := hloaded
  obtain ⟨made, hmade, hwrite⟩ := save_eq_ok_iff.mp hsave
  rw [h.ensureDirectory] at hmade
  cases hmade
  cases hreturn
  exact ⟨rfl, hwrite⟩

/-- With the directory there and nothing in the place of the file, loading gives the defaults. -/
theorem IsReady.load_of_missing (h : IsReady s)
    (hmissing : s.files.isPresent s.current (Places.settingsFile s.environment) = .ok false) :
    ∃ after, load.perform s = (.ok defaults, after) := by
  have hfree := Node.isDirectory_of_not_isPresent hmissing
  obtain ⟨files, hfiles⟩ := (Node.exists_write_child_iff h.isDirectory (by decide)
    defaultBytes).mpr hfree
  have hwrite := Action.writeFile_of_ok h.isPath_file hfiles
  have hsave : (save (.object defaults)).perform s = (.ok (), { s with files }) :=
    save_eq_ok_iff.mpr ⟨s, h.ensureDirectory, hwrite⟩
  rw [h.load_perform hmissing, if_neg (by decide), loadNew, Action.perform_bind_of_ok hsave]
  exact ⟨_, rfl⟩

theorem IsReady.exists_isPresent_of_load {members : Members} (h : IsReady s)
    (hload : load.perform s = (.ok members, after)) : ∃ present,
      s.files.isPresent s.current (Places.settingsFile s.environment) = .ok present := by
  cases hpresent : s.files.isPresent s.current (Places.settingsFile s.environment) with
  | error cause =>
    have hasked := Action.isPresent_perform h.isPath_file s
    rw [hpresent] at hasked
    rw [load_eq, Action.perform_bind_get,
      Action.perform_bind_of_ok h.ensureDirectory, Action.perform_bind_of_error hasked] at hload
    cases hload
  | ok present => exact ⟨present, rfl⟩

/-- Loading where the directory is there: the outcome is found afterwards, and only a missing file
is written. -/
theorem IsReady.load_ok {members : Members} (h : IsReady s)
    (hload : load.perform s = (.ok members, after)) :
    IsReady after ∧ Found after (.ok members) ∧ (s.Logs after ∨
      s.files.isPresent s.current (Places.settingsFile s.environment) = .ok false ∧
        (Action.writeFile (Places.settingsFile s.environment) defaultBytes).perform s =
          (.ok (), after)) := by
  have hfound : ∀ {outcome}, Found s outcome →
      IsReady after ∧ Found after (.ok members) ∧ s.Logs after := by
    intro outcome hfound
    obtain ⟨last, hlast, hlogs⟩ := h.load_of_found hfound
    rw [hload] at hlast
    obtain ⟨rfl, rfl⟩ := Prod.mk.inj hlast
    exact ⟨h.of_logs hlogs, hfound.of_logs hlogs, hlogs⟩
  obtain ⟨present, hpresent⟩ := h.exists_isPresent_of_load hload
  cases present with
  | true =>
    cases hread : s.files.read s.current (Places.settingsFile s.environment) with
    | ok bytes =>
      obtain ⟨hready, hafter, hlogs⟩ := hfound (.file hread)
      exact ⟨hready, hafter, Or.inl hlogs⟩
    | error cause =>
      obtain ⟨hready, hafter, hlogs⟩ :=
        hfound (.directory (Node.isDirectory_of_read_error hpresent hread))
      exact ⟨hready, hafter, Or.inl hlogs⟩
  | false =>
    rw [h.load_perform hpresent, if_neg Bool.false_ne_true] at hload
    obtain ⟨rfl, hwrite⟩ := h.loadNew_perform hload
    obtain ⟨hready, hafter⟩ := h.found_of_write hwrite
    rw [contentsOf_defaultBytes] at hafter
    exact ⟨hready, hafter, Or.inr ⟨hpresent, hwrite⟩⟩

/-- With the directories on the way added, writing the defaults in a place where nothing was is all
that loading does. -/
theorem prepares_of_write {files : Node} (hcurrent : s.files.kindAt? s.current = some .directory)
    (hgrows : s.files.Grows files
      (files.LeadsThrough s.current (Places.settingsDirectory s.environment)))
    (habsent : files.isPresent s.current (Places.settingsFile s.environment) = .ok false)
    (h : (Action.writeFile (Places.settingsFile s.environment) defaultBytes).perform
      { s with files } = (.ok (), after)) : Prepares s after := by
  obtain ⟨_, hwritten, hafter⟩ := Action.writeFile_eq_ok_iff.mp h
  obtain ⟨found, hplace, _⟩ := Node.write_eq_ok_iff.mp hwritten
  have hkeeps : files.Keeps after.files := Node.keeps_of_write hwritten
  refine ⟨⟨[], after.pitchesKnown, ?_⟩, fun place => ?_⟩
  · rw [hafter]
    simp [unlines]
  · have hkind := Node.kindAt?_of_write (hgrows.keeps _ hcurrent) hwritten hplace place
    have hmissing : files.kindAt? found = none := Node.kindAt?_of_not_isPresent habsent hplace
    split_ifs at hkind with hsame
    · rw [hsame] at hkind ⊢
      refine Or.inr ⟨?_, Or.inr ⟨hkeeps.placeOf hplace, hkind⟩⟩
      rcases hgrows found with hunchanged | ⟨hnone, _⟩
      · rw [← hunchanged, hmissing]
      · exact hnone
    · rcases hgrows place with hunchanged | ⟨hnone, hway⟩
      · exact Or.inl (hkind.trans hunchanged)
      · exact Or.inr ⟨hnone, Fills.of_keeps (Or.inl hway) hkeeps hkind⟩

/-- Where loading gives settings the directory could be made, and only directories on the way to it
were. -/
theorem exists_made_of_load {members : Members}
    (hcurrent : s.files.kindAt? s.current = some .directory)
    (h : load.perform s = (.ok members, after)) : ∃ files,
      (Action.ensureDirectory (Places.settingsDirectory s.environment)).perform s =
        (.ok (), { s with files }) ∧
      s.files.Grows files (files.LeadsThrough s.current
        (Places.settingsDirectory s.environment)) := by
  rw [load_eq, Action.perform_bind_get,
    Action.perform_bind_eq_ok_iff] at h
  obtain ⟨_, made, hmade, _⟩ := h
  obtain ⟨_, hensure, hsame⟩ := Action.ensureDirectory_eq_ok_iff.mp hmade
  have hgrows := Node.grows_ensureDirectory hcurrent (Places.settingsDirectory s.environment)
  rw [hensure] at hgrows
  exact ⟨made.files, hsame ▸ hmade, hgrows⟩

/-- Once the settings have been loaded they are there, and loading found them or put them there. -/
theorem prepares_of_load {members : Members}
    (hcurrent : s.files.kindAt? s.current = some .directory)
    (h : load.perform s = (.ok members, after)) :
    IsReady after ∧ Found after (.ok members) ∧ Prepares s after := by
  obtain ⟨files, hmade, hgrows⟩ := exists_made_of_load hcurrent h
  have hready := (isReady_of_ensureDirectory hmade).1
  have hloaded : load.perform { s with files } = (.ok members, after) :=
    (load_of_made hmade).symm.trans h
  obtain ⟨hlater, hfound, hfiles⟩ := hready.load_ok hloaded
  refine ⟨hlater, hfound, ?_⟩
  rcases hfiles with ⟨lines, known, rfl⟩ | ⟨habsent, hwrite⟩
  · exact ⟨⟨lines, known, rfl⟩, fun place => (hgrows place).imp_right fun ⟨hnone, hway⟩ =>
      ⟨hnone, Or.inl hway⟩⟩
  · exact prepares_of_write hcurrent hgrows habsent hwrite

/-- There is room for the path of the settings file. -/
def FileHasRoom (environment : Environment) : Prop :=
  (Utf8.encode (Places.settingsFile environment).text).length ≤ Node.pathLimit

instance (environment : Environment) : Decidable (FileHasRoom environment) :=
  inferInstanceAs (Decidable (_ ≤ _))

theorem noRoom_iff (environment : Environment) :
    Node.NoRoom (Places.settingsDirectory environment) "config.json" ↔
      ¬ FileHasRoom environment := by
  rw [Node.NoRoom, FileHasRoom, not_le, Places.settingsFile]
  simp only [or_iff_left_iff_imp]
  exact fun h => absurd h (by decide)

/-- With the directory there, it can be told whether anything is in the place of the file just where
there is room for its path. -/
theorem IsReady.exists_isPresent (h : IsReady s) : ∃ present,
    s.files.isPresent s.current (Places.settingsFile s.environment) =
      if FileHasRoom s.environment then .ok present else .error .nameTooLong := by
  obtain ⟨directory, entries, hplace, hentries⟩ := Node.exists_at?_of_isDirectory h.isDirectory
  have hpresent := Node.isPresent_child_eq hplace hentries
    (by decide : "config.json".toList ≠ ['.', '.'])
  simp only [noRoom_iff, ite_not] at hpresent
  exact ⟨_, hpresent⟩

theorem IsReady.isPresent_eq_false (h : IsReady s) (hroom : FileHasRoom s.environment)
    (hmissing : s.files.isPresent s.current (Places.settingsFile s.environment) ≠ .ok true) :
    s.files.isPresent s.current (Places.settingsFile s.environment) = .ok false := by
  obtain ⟨present, hpresent⟩ := h.exists_isPresent
  rw [if_pos hroom] at hpresent
  rw [hpresent] at hmissing ⊢
  simpa using hmissing

/-- Where there is no room for the path of the file, loading comes to a fault. -/
theorem IsReady.load_of_noRoom (h : IsReady s) (hroom : ¬ FileHasRoom s.environment) :
    ∃ fault, load.perform s = (.error (.file fault), s) := by
  obtain ⟨_, hpresent⟩ := h.exists_isPresent
  rw [if_neg hroom] at hpresent
  have hasked := Action.isPresent_perform h.isPath_file s
  rw [hpresent] at hasked
  refine ⟨{ cause := .nameTooLong, path := (Places.settingsFile s.environment).text }, ?_⟩
  rw [load_eq, Action.perform_bind_get,
    Action.perform_bind_of_ok h.ensureDirectory, Action.perform_bind_of_error hasked]
  rfl

/-- With the directory there, a file can be written in the place of the settings just where there is
room for its path and no directory in its place. -/
theorem IsReady.exists_write_iff (h : IsReady s) (bytes : List UInt8) :
    (∃ files, s.files.write s.current (Places.settingsFile s.environment) bytes = .ok files) ↔
      FileHasRoom s.environment ∧
        s.files.isDirectory s.current (Places.settingsFile s.environment) ≠ .ok true := by
  have hname : "config.json".toList ≠ ['.', '.'] := by decide
  have hwrite := Node.exists_write_child_iff h.isDirectory hname bytes
  rw [Node.isDirectory_child_eq_false_iff h.isDirectory hname, noRoom_iff, not_not] at hwrite
  exact hwrite

theorem exists_save_iff (s : Session) (value : Value) :
    (∃ saved, (save value).perform s = (.ok (), saved)) ↔
      FileHasRoom s.environment ∧ ∃ made,
        (Action.ensureDirectory (Places.settingsDirectory s.environment)).perform s =
          (.ok (), made) ∧
        made.files.isDirectory made.current (Places.settingsFile s.environment) ≠ .ok true := by
  constructor
  · rintro ⟨saved, hsave⟩
    obtain ⟨made, hmade, hwrite⟩ := save_eq_ok_iff.mp hsave
    obtain ⟨hready, henvironment⟩ := isReady_of_ensureDirectory hmade
    obtain ⟨_, hfiles, _⟩ := Action.writeFile_eq_ok_iff.mp hwrite
    rw [← henvironment] at hfiles ⊢
    obtain ⟨hroom, hfree⟩ := (hready.exists_write_iff _).mp ⟨_, hfiles⟩
    exact ⟨hroom, made, henvironment.symm ▸ hmade, hfree⟩
  · rintro ⟨hroom, made, hmade, hfree⟩
    obtain ⟨hready, henvironment⟩ := isReady_of_ensureDirectory hmade
    rw [← henvironment] at hroom hfree
    obtain ⟨files, hfiles⟩ := (hready.exists_write_iff (Utf8.encode (Json.indented value))).mpr
      ⟨hroom, hfree⟩
    have hwrite := Action.writeFile_of_ok hready.isPath_file hfiles
    rw [henvironment] at hwrite
    exact ⟨_, save_eq_ok_iff.mpr ⟨made, hmade, hwrite⟩⟩

/-- What is saved is loaded from there as what its text gives. -/
theorem load_of_save {value : Value} {saved : Session}
    (h : (save value).perform s = (.ok (), saved)) : ∃ after, load.perform saved =
      (contentsOf s.nesting (Utf8.encode (Json.indented value)), after) := by
  obtain ⟨made, hmade, hwrite⟩ := save_eq_ok_iff.mp h
  obtain ⟨hready, henvironment⟩ := isReady_of_ensureDirectory hmade
  obtain ⟨_, _, hsame⟩ := Action.ensureDirectory_eq_ok_iff.mp hmade
  have hnesting : made.nesting = s.nesting := by
    rw [hsame]
  rw [← henvironment] at hwrite
  obtain ⟨hlater, hfound⟩ := hready.found_of_write hwrite
  rw [hnesting] at hfound
  obtain ⟨after, hload, _⟩ := hlater.load_of_found hfound
  exact ⟨after, hload⟩

/-- A value can be saved just where the directory of the settings can be made, there is room for the
path of the file, and no directory then is in its place. What is loaded afterwards is that value,
with the points of its texts joined, laid over the defaults, or the defaults if it is no object. A
value that a text can give has nothing to join. Of the value it is asked that its whole numbers can
be written and that it is not nested deeper than texts are read. -/
theorem load_after_save (s : Session) (value : Value) (h : Json.IsSavable s.nesting 0 value) :
    ((∃ saved, (save value).perform s = (.ok (), saved)) ↔
      FileHasRoom s.environment ∧ ∃ made,
        (Action.ensureDirectory (Places.settingsDirectory s.environment)).perform s =
          (.ok (), made) ∧
        made.files.isDirectory made.current (Places.settingsFile s.environment) ≠ .ok true) ∧
    (∀ saved, (save value).perform s = (.ok (), saved) →
      ∃ after, load.perform saved = (.ok (restored value.joined), after)) ∧
    (Json.IsReadable s.nesting 0 value → value.joined = value) := by
  refine ⟨exists_save_iff s value, fun saved hsave => ?_, fun hreadable => hreadable.joined_eq⟩
  obtain ⟨after, hload⟩ := load_of_save hsave
  rw [contentsOf_saved h] at hload
  exact ⟨after, hload⟩

/-- A session in an empty file tree, with one directory for the settings and the data. -/
def freshSession : Session :=
  { files := .directory [], current := [], environment := [(directoryVariable, "nc".toList)]
    now := ⟨2026, 1, 1, 0, 0, 0⟩ }

theorem exists_save_freshSession (value : Value) :
    ∃ saved, (save value).perform freshSession = (.ok (), saved) := by
  have hmade : (Action.ensureDirectory
      (Places.settingsDirectory freshSession.environment)).perform freshSession =
        (.ok (), { freshSession with files := .directory [("nc".toList, .directory
          [("config".toList, .directory [])])] }) :=
    Action.ensureDirectory_eq_ok_iff.mpr ⟨rfl, rfl, rfl⟩
  exact (exists_save_iff freshSession value).mpr ⟨by decide +kernel, _, hmade, by rintro ⟨⟩⟩

/-- A saved section is laid over its default, and what the defaults do not have follows. -/
theorem load_after_save_section :
    let value : Value := .object
      [named "extra" (.list [.null, .real .nan]),
        named composerSection (.object [named "swing" (.bool true), named tempoName (.int 90)])]
    Json.IsReadable freshSession.nesting 0 value ∧
      ∃ saved, (save value).perform freshSession = (.ok (), saved) ∧
        ∃ after, load.perform saved = (.ok
          [named composerSection (.object [named tempoName (.int 90),
              named tuningName defaultTuning, named "swing" (.bool true)]),
            named renderSection (.object [named rateName defaultRate,
              named styleName defaultStyle, named gapName defaultGap]),
            named "extra" (.list [.null, .real .nan])], after) := by
  intro value
  have hreadable : Json.IsReadable freshSession.nesting 0 value := by
    refine .object (by decide) (by decide) (by decide) ?_
    simp only [List.forall_mem_cons, List.not_mem_nil, false_imp_iff, implies_true, and_true]
    refine ⟨.list (by decide) ?_, .object (by decide) (by decide) (by decide) ?_⟩
    · simp only [List.forall_mem_cons, List.not_mem_nil, false_imp_iff, implies_true, and_true]
      exact ⟨.null, .real trivial⟩
    · simp only [List.forall_mem_cons, List.not_mem_nil, false_imp_iff, implies_true, and_true]
      exact ⟨.bool true, .int (by decide +kernel)⟩
  obtain ⟨saved, hsave⟩ := exists_save_freshSession value
  obtain ⟨_, hloads, hjoined⟩ := load_after_save freshSession value hreadable.isSavable
  rw [hjoined hreadable] at hloads
  exact ⟨hreadable, saved, hsave, hloads saved hsave⟩

/-- The path of a directory of 4077 bytes, in which directories for the settings and for rendered
files have room, but no file in them has. -/
def deepDirectory : List Char :=
  ['/'].intercalate (List.replicate 15 (List.replicate 255 'd') ++ [List.replicate 237 'd'])

/-- A session in an empty file tree, with a deep directory for the settings and the data. -/
def deepSession : Session :=
  { freshSession with environment := [(directoryVariable, deepDirectory)] }

/-- The directory of the settings can be made below the deep directory. -/
theorem exists_made_deepSession : ∃ files,
    (Action.ensureDirectory (Places.settingsDirectory deepSession.environment)).perform
      deepSession = (.ok (), { deepSession with files }) := by
  have hvalid : Action.IsPath (Places.settingsDirectory deepSession.environment) := by
    rw [Action.IsPath]
    decide +kernel
  have hensure : (deepSession.files.ensureDirectory deepSession.current
      (Places.settingsDirectory deepSession.environment)).1.toBool = true := by
    decide +kernel
  generalize hresult : deepSession.files.ensureDirectory deepSession.current
    (Places.settingsDirectory deepSession.environment) = result at hensure
  obtain ⟨_ | _, files⟩ := result
  · cases hensure
  · exact ⟨files, Action.ensureDirectory_eq_ok_iff.mpr ⟨hvalid, hresult, rfl⟩⟩

theorem not_fileHasRoom_deepSession : ¬ FileHasRoom deepSession.environment := by
  decide +kernel

/-- The two surrogates of one character, as two code points. -/
def halves : Points := [.ofNat 0xD83D, .ofNat 0xDE00]

/-- The character of the two surrogates. -/
def whole : Points := [.ofNat 0x1F600]

/-- Saving may fail although the directory can be made and no directory is in the place of the file;
and two surrogates that are saved one after the other are loaded as one character. -/
theorem load_after_save_fails :
    ((∃ made, (Action.ensureDirectory
          (Places.settingsDirectory deepSession.environment)).perform deepSession =
            (.ok (), made) ∧
        made.files.isDirectory made.current
          (Places.settingsFile deepSession.environment) ≠ .ok true) ∧
      ¬ ∃ saved, (save (.object [])).perform deepSession = (.ok (), saved)) ∧
    halves ≠ whole ∧
      ∃ saved after,
        (save (.object [named "title" (.text halves)])).perform freshSession = (.ok (), saved) ∧
        load.perform saved = (.ok (defaults ++ [named "title" (.text whole)]), after) := by
  refine ⟨⟨?_, fun hsaves => ?_⟩, by decide, ?_⟩
  · obtain ⟨files, hmade⟩ := exists_made_deepSession
    refine ⟨_, hmade, fun hdirectory => ?_⟩
    obtain ⟨hready, henvironment⟩ := isReady_of_ensureDirectory hmade
    have hfree := Node.isDirectory_child_of_noRoom hready.isDirectory (by decide)
      ((noRoom_iff _).mpr not_fileHasRoom_deepSession)
    rw [Places.settingsFile, hfree] at hdirectory
    cases hdirectory
  · exact not_fileHasRoom_deepSession ((exists_save_iff _ _).mp hsaves).1
  · obtain ⟨saved, hsave⟩ := exists_save_freshSession (.object [named "title" (.text halves)])
    obtain ⟨after, hload⟩ := load_of_save hsave
    have hsavable : Json.IsSavable freshSession.nesting 0
        (.object [named "title" (.text halves)]) :=
      .object (by decide) (List.forall_mem_singleton.mpr (.text halves))
    rw [contentsOf_saved hsavable] at hload
    exact ⟨saved, after, hsave, hload⟩

/-! ## What loading does not get over -/

/-- Bytes that loading does not get over, and the fault that ends the program. -/
inductive Overtaxes (nesting : Value.Nesting) (bytes : List UInt8) : Fault → Prop
  /-- They are not UTF-8. -/
  | encoding {fault : Utf8.Fault} (h : Utf8.decode bytes = .error fault) :
    Overtaxes nesting bytes (.encoding fault)
  /-- The reader comes to a whole number with too many digits. -/
  | numeral {text : List Char} {state : Json.State} {placed : Json.Placed}
      {stack : List Json.Frame} {digits : ℕ} (htext : bytes = Utf8.encode text)
      (hreach : Json.Reaches nesting (unifyLineEnds text) state placed)
      (hstate : Json.Awaits nesting state stack) (htoken : placed.token = .longNumeral digits) :
    Overtaxes nesting bytes (.unreadableNumeral digits)
  /-- The reader comes to one list or object too many within others. -/
  | nesting {text : List Char} {state : Json.State} {placed : Json.Placed}
      {stack : List Json.Frame} (htext : bytes = Utf8.encode text)
      (hreach : Json.Reaches nesting (unifyLineEnds text) state placed)
      (hstate : Json.Awaits nesting state stack) (hdeep : nesting.levels ≤ stack.length)
      (htoken : placed.token = .openList ∨ placed.token = .openObject) :
    Overtaxes nesting bytes .nesting

theorem contentsOf_eq_error_iff {bytes : List UInt8} {fault : Fault} :
    contentsOf nesting bytes = .error fault ↔ Overtaxes nesting bytes fault := by
  constructor
  · intro h
    unfold contentsOf at h
    split at h
    · rename_i hdecode
      cases h
      exact .encoding hdecode
    · rename_i text hdecode
      have htext := Utf8.decode_eq_ok_iff.mp hdecode
      split at h
      · cases h
      · cases h
      · cases h
      · rename_i hread
        cases h
        obtain ⟨state, placed, stack, hreach, hstate, htoken⟩ :=
          Json.read_eq_longNumeral_iff.mp hread
        exact .numeral htext hreach hstate htoken
      · rename_i hread
        cases h
        obtain ⟨state, placed, stack, hreach, hstate, hdeep, htoken⟩ :=
          Json.read_eq_nesting_iff.mp hread
        exact .nesting htext hreach hstate hdeep htoken
  · intro h
    unfold contentsOf
    cases h with
    | encoding hdecode => rw [hdecode]
    | numeral htext hreach hstate htoken =>
      have hread := Json.read_eq_longNumeral_iff.mpr ⟨_, _, _, hreach, hstate, htoken⟩
      rw [Utf8.decode_eq_ok_iff.mpr htext]
      dsimp only
      rw [hread]
    | nesting htext hreach hstate hdeep htoken =>
      have hread := Json.read_eq_nesting_iff.mpr ⟨_, _, _, hreach, hstate, hdeep, htoken⟩
      rw [Utf8.decode_eq_ok_iff.mpr htext]
      dsimp only
      rw [hread]

/-- The bytes are the text of an object, where texts are read so many levels deep. -/
def IsObjectText (nesting : Value.Nesting) (bytes : List UInt8) (given : Members) : Prop :=
  ∃ text, bytes = Utf8.encode text ∧
    Json.readWithin nesting (unifyLineEnds text) = .ok (.object given)

theorem contentsOf_of_isObjectText {bytes : List UInt8} {given : Members}
    (h : IsObjectText nesting bytes given) : contentsOf nesting bytes = .ok (overlaid given) := by
  obtain ⟨text, htext, hread⟩ := h
  rw [contentsOf, Utf8.decode_eq_ok_iff.mpr htext]
  dsimp only
  rw [hread, ← merge_eq_overlaid (Json.isReadable_of_read hread)]

theorem contentsOf_of_not_isObjectText {bytes : List UInt8} {members : Members}
    (h : ¬ ∃ given, IsObjectText nesting bytes given)
    (hmembers : contentsOf nesting bytes = .ok members) : members = defaults := by
  unfold contentsOf at hmembers
  split at hmembers
  · cases hmembers
  · rename_i text hdecode
    split at hmembers
    · rename_i given hread
      exact absurd ⟨given, text, Utf8.decode_eq_ok_iff.mp hdecode, hread⟩ h
    · cases hmembers
      rfl
    · cases hmembers
      rfl
    · cases hmembers
    · cases hmembers

/-- What loading finds can be written into a message. -/
theorem Found.isWritable {members : Members} (h : Found s (.ok members)) :
    (Value.object members).isWritable = true := by
  generalize houtcome : Except.ok members = outcome at h
  cases h with
  | @file bytes _ =>
    by_cases hobject : ∃ given, IsObjectText s.nesting bytes given
    · obtain ⟨given, hgiven⟩ := hobject
      obtain ⟨text, _, hread⟩ := id hgiven
      rw [contentsOf_of_isObjectText hgiven] at houtcome
      rw [Except.ok.inj houtcome]
      exact isWritable_overlaid (Json.isReadable_of_read hread)
    · rw [contentsOf_of_not_isObjectText hobject houtcome.symm]
      exact isWritable_defaults
  | directory _ =>
    rw [Except.ok.inj houtcome]
    exact isWritable_defaults

theorem isWritable_of_load {members : Members} (h : load.perform s = (.ok members, after)) :
    (Value.object members).isWritable = true := by
  have hmakes := h
  rw [load_eq, Action.perform_bind_get,
    Action.perform_bind_eq_ok_iff] at hmakes
  obtain ⟨_, made, hmade, _⟩ := hmakes
  rw [load_of_made hmade] at h
  exact ((isReady_of_ensureDirectory hmade).1.load_ok h).2.1.isWritable

/-- Loading a file gives settings unless its bytes overtax the reader: those of the object that the
bytes are the text of, laid over the defaults, or else the defaults. Bytes that overtax the reader
end the program. -/
theorem load_settles_iff (s : Session) (bytes : List UInt8) (hready : IsReady s)
    (hfile : s.files.read s.current (Places.settingsFile s.environment) = .ok bytes) :
    ((∃ members after, load.perform s = (.ok members, after)) ↔
      ¬ ∃ fault, Overtaxes s.nesting bytes fault) ∧
    (∀ members after, load.perform s = (.ok members, after) →
      (∀ given, IsObjectText s.nesting bytes given → members = overlaid given) ∧
      ((¬ ∃ given, IsObjectText s.nesting bytes given) → members = defaults)) ∧
    ∀ fault, Overtaxes s.nesting bytes fault → ∃ after, load.perform s = (.error fault, after) := by
  obtain ⟨after, hload, _⟩ := hready.load_of_found (.file hfile)
  refine ⟨⟨?_, ?_⟩, ?_, ?_⟩
  · rintro ⟨members, last, hok⟩ ⟨fault, hfault⟩
    rw [hload, contentsOf_eq_error_iff.mpr hfault] at hok
    cases hok
  · intro hno
    cases hcontents : contentsOf s.nesting bytes with
    | ok members => exact ⟨members, after, by rw [hload, hcontents]⟩
    | error fault => exact absurd ⟨fault, contentsOf_eq_error_iff.mp hcontents⟩ hno
  · intro members last hok
    rw [hload] at hok
    have hcontents : contentsOf s.nesting bytes = .ok members := (Prod.mk.inj hok).1
    refine ⟨fun given hgiven => ?_, fun hno => contentsOf_of_not_isObjectText hno hcontents⟩
    rw [contentsOf_of_isObjectText hgiven] at hcontents
    exact (Except.ok.inj hcontents).symm
  · intro fault hfault
    exact ⟨after, by rw [hload, contentsOf_eq_error_iff.mpr hfault]⟩

/-- A session whose settings file holds some bytes. -/
def sessionWith (bytes : List UInt8) : Session :=
  { freshSession with
    files := .directory [("nc".toList, .directory
      [("config".toList, .directory [("config.json".toList, .file bytes)])])] }

theorem isReady_sessionWith (bytes : List UInt8) : IsReady (sessionWith bytes) := ⟨rfl, rfl⟩

theorem read_sessionWith (bytes : List UInt8) :
    (sessionWith bytes).files.read (sessionWith bytes).current
      (Places.settingsFile (sessionWith bytes).environment) = .ok bytes := rfl

/-- The text of a list is not that of an object. -/
theorem load_list :
    IsReady (sessionWith [0x5B, 0x5D]) ∧ ∃ after,
      load.perform (sessionWith [0x5B, 0x5D]) = (.ok defaults, after) := by
  have hread : Json.readWithin .usual ['[', ']'] = .ok (.list []) :=
    (Json.IsReadable.list (by decide) (List.forall_mem_nil _)).read_print .line 0
  have hcontents : contentsOf .usual [0x5B, 0x5D] = .ok defaults := by
    have hdecode : Utf8.decode [0x5B, 0x5D] = .ok ['[', ']'] := rfl
    have hunify : unifyLineEnds ['[', ']'] = ['[', ']'] := rfl
    rw [contentsOf, hdecode]
    dsimp only
    rw [hunify, hread]
  have hobject : ¬ ∃ given, IsObjectText .usual [0x5B, 0x5D] given := by
    rintro ⟨given, text, htext, hgiven⟩
    have hdecode : Utf8.decode [0x5B, 0x5D] = .ok text := Utf8.decode_eq_ok_iff.mpr htext
    cases hdecode
    exact absurd (hread.symm.trans hgiven) (by simp)
  obtain ⟨hsettles, hmembers, _⟩ := load_settles_iff _ [0x5B, 0x5D] (isReady_sessionWith _)
    (read_sessionWith _)
  obtain ⟨members, after, hload⟩ := hsettles.mpr fun ⟨fault, hfault⟩ => by
    cases (contentsOf_eq_error_iff.mpr hfault).symm.trans hcontents
  exact ⟨isReady_sessionWith _, after, (hmembers members after hload).2 hobject ▸ hload⟩

/-- A byte that begins no character ends the program. -/
theorem load_invalid_byte :
    ∃ after, load.perform (sessionWith [0xFF]) =
      (.error (.encoding { position := 0, length := 1, byte := 0xFF, reason := .start }), after) := by
  obtain ⟨after, hload, _⟩ :=
    (isReady_sessionWith [0xFF]).load_of_found (.file (read_sessionWith [0xFF]))
  exact ⟨after, hload⟩

end Ringtone.Settings
