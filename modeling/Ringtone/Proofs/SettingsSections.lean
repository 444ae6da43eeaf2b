import Ringtone.Proofs.CommandRuns

/-!
# Sections of the settings

A section that the file gives as an object has every setting of its default. A file may also give
something else in the place of a section, a number for instance, and then this is what is loaded:
the settings of the composer are not had unless both come from the environment, and the settings of
rendering are no object.
-/

namespace Ringtone.Settings

open Text

variable {s : Session} {nesting : Value.Nesting} {bytes : List UInt8} {members given : Members}
  {name : String} {environment : Environment}

/-! ## What the file gives for a section -/

/-- Every section of the defaults is there, with every setting that it has in the defaults. -/
def IsComplete (settings : Members) : Prop :=
  ∀ name base, defaults.get? name = some (.object base) → ∃ inner,
    settings.get? name = some (.object inner) ∧
      ∀ setting ∈ base.map Prod.fst, setting ∈ inner.map Prod.fst

/-- The bytes are the text of an object that has, in the place of a section, something that is no
object. -/
def Displaces (nesting : Value.Nesting) (bytes : List UInt8) (name : String) (value : Value) :
    Prop :=
  ∃ given, IsObjectText nesting bytes given ∧ given.get? (Points.ofString name) = some value ∧
    ∀ inner, value ≠ .object inner

theorem IsObjectText.unique {first second : Members} (hfirst : IsObjectText nesting bytes first)
    (hsecond : IsObjectText nesting bytes second) : first = second := by
  obtain ⟨text, htext, hread⟩ := hfirst
  obtain ⟨other, hother, hagain⟩ := hsecond
  rw [← Utf8.decode_eq_ok_iff] at htext hother
  rw [htext] at hother
  cases hother
  rw [hread] at hagain
  cases hagain
  rfl

theorem displaces_iff (hgiven : IsObjectText nesting bytes given) {value : Value} :
    Displaces nesting bytes name value ↔
      given.get? (Points.ofString name) = some value ∧ ∀ inner, value ≠ .object inner := by
  constructor
  · rintro ⟨other, hother, h⟩
    rwa [hgiven.unique hother]
  · intro h
    exact ⟨given, hgiven, h⟩

theorem Displaces.ne_object {value : Value} (h : Displaces nesting bytes name value)
    (inner : Members) : value ≠ .object inner := by
  obtain ⟨_, _, _, hne⟩ := h
  exact hne inner

/-- What is loaded for a section is what stands in its place in the file, or it is an object with
every setting of the default. -/
theorem section_cases (hcontents : contentsOf nesting bytes = .ok members) {base : Members}
    (hbase : defaults.get? (Points.ofString name) = some (.object base)) :
    (∃ value, Displaces nesting bytes name value ∧
        members.get? (Points.ofString name) = some value) ∨
    (∀ value, ¬ Displaces nesting bytes name value) ∧ ∃ inner,
      members.get? (Points.ofString name) = some (.object inner) ∧
        ∀ setting ∈ base.map Prod.fst, setting ∈ inner.map Prod.fst := by
  by_cases hobject : ∃ given, IsObjectText nesting bytes given
  · obtain ⟨given, hgiven⟩ := hobject
    rw [contentsOf_of_isObjectText hgiven] at hcontents
    cases hcontents
    rw [get?_overlaid hbase]
    simp only [displaces_iff hgiven]
    -- nothing, an object or something else stands under the name
    cases given.get? (Points.ofString name) with
    | none =>
      right
      exact ⟨by simp, base, rfl, fun _ h => h⟩
    | some value =>
      cases value with
      | object above =>
        right
        refine ⟨?_, _, rfl, fun _ h => Members.mem_map_fst_covered h above⟩
        rintro _ ⟨⟨⟩, hne⟩
        exact hne above rfl
      | _ =>
        left
        exact ⟨_, ⟨rfl, by simp⟩, rfl⟩
  · right
    rw [contentsOf_of_not_isObjectText hobject hcontents]
    refine ⟨?_, base, hbase, fun _ h => h⟩
    rintro _ ⟨given, hgiven, _⟩
    exact hobject ⟨given, hgiven⟩

theorem sectionOf_of_get? {value : Value} (h : members.get? (Points.ofString name) = some value) :
    sectionOf members name = value := by
  rw [sectionOf, h]
  rfl

/-- The section of the composer in the defaults. -/
def composerDefaults : Members := [named tempoName defaultTempo, named tuningName defaultTuning]

/-- The section of rendering in the defaults. -/
def renderDefaults : Members :=
  [named rateName defaultRate, named styleName defaultStyle, named gapName defaultGap]

theorem defaults_composer :
    defaults.get? (Points.ofString composerSection) = some (.object composerDefaults) := rfl

theorem defaults_render :
    defaults.get? (Points.ofString renderSection) = some (.object renderDefaults) := by
  rw [defaults, named, Members.get?_cons, if_neg (by decide)]
  rfl

theorem isComplete_iff (hcontents : contentsOf nesting bytes = .ok members) :
    IsComplete members ↔ (∀ value, ¬ Displaces nesting bytes composerSection value) ∧
      ∀ value, ¬ Displaces nesting bytes renderSection value := by
  have hnever : ∀ {name base}, defaults.get? (Points.ofString name) = some (.object base) →
      IsComplete members → ∀ value, ¬ Displaces nesting bytes name value := by
    intro name base hbase hcomplete value hvalue
    obtain ⟨inner, hinner, _⟩ := hcomplete _ _ hbase
    rcases section_cases hcontents hbase with ⟨other, hother, hget⟩ | ⟨hno, _⟩
    · rw [hinner] at hget
      cases hget
      exact hother.ne_object inner rfl
    · exact hno value hvalue
  constructor
  · intro hcomplete
    exact ⟨hnever defaults_composer hcomplete, hnever defaults_render hcomplete⟩
  · rintro ⟨hcomposer, hrender⟩ name base hbase
    have hmem := Members.mem_of_get? hbase
    simp only [defaults, List.mem_cons, List.not_mem_nil, or_false] at hmem
    rcases hmem with hsame | hsame
    · cases hsame
      rcases section_cases hcontents defaults_composer with ⟨value, hvalue, _⟩ | ⟨_, hinner⟩
      · exact absurd hvalue (hcomposer value)
      · exact hinner
    · cases hsame
      rcases section_cases hcontents defaults_render with ⟨value, hvalue, _⟩ | ⟨_, hinner⟩
      · exact absurd hvalue (hrender value)
      · exact hinner

/-! ## The readers of the sections -/

theorem resolve_of_object (number : Option Int) (inner : Members) (name : String)
    (fallback : Value) : resolve number (.object inner) name fallback =
      .ok (Commands.orElse number ((inner.get? (Points.ofString name)).getD fallback)) := by
  cases number <;> rfl

theorem resolve_of_ne_object {number : Option Int} {found : Value}
    (hfound : ∀ inner, found ≠ .object inner) (name : String) (fallback : Value) :
    resolve number found name fallback = match number with
      | some n => .ok (.int n)
      | none => .error .noAttribute := by
  cases number with
  | some n => rfl
  | none =>
    cases found with
    | object inner => exact absurd rfl (hfound inner)
    | _ => rfl

/-- Both variables of the composer are whole numbers. -/
def HasNumbers (environment : Environment) : Prop :=
  (∃ n, wholeIn environment tempoVariable = some n) ∧
    ∃ n, wholeIn environment tuningVariable = some n

theorem composerFrom_of_object {inner : Members}
    (h : sectionOf members composerSection = .object inner) :
    composerFrom members environment = .ok
      { tempo := Commands.orElse (wholeIn environment tempoVariable)
          ((inner.get? (Points.ofString tempoName)).getD defaultTempo)
        tuning := Commands.orElse (wholeIn environment tuningVariable)
          ((inner.get? (Points.ofString tuningName)).getD defaultTuning) } := by
  rw [composerFrom, h, resolve_of_object, resolve_of_object]
  rfl

theorem composerFrom_of_ne_object (h : ∀ inner, sectionOf members composerSection ≠ .object inner) :
    ((∃ found, composerFrom members environment = .ok found) ↔ HasNumbers environment) ∧
      (¬ HasNumbers environment → composerFrom members environment = .error .noAttribute) := by
  rw [composerFrom, resolve_of_ne_object h, resolve_of_ne_object h, HasNumbers]
  cases wholeIn environment tempoVariable with
  | none => simp [bind, Except.bind]
  | some tempo =>
    cases wholeIn environment tuningVariable with
    | none => simp [bind, Except.bind]
    | some tuning => simp [bind, Except.bind, pure, Except.pure]

/-- With the directory there, the settings of the composer are those of what is found. -/
theorem IsReady.composer_of_found (h : IsReady s) {outcome : Except Fault Members}
    (hfound : Found s outcome) : ∃ after, composer.perform s =
      (outcome >>= fun members => composerFrom members s.environment, after) := by
  obtain ⟨mid, hload, hlogs⟩ := h.load_of_found hfound
  cases outcome with
  | error fault =>
    rw [composer]
    exact ⟨mid, Action.perform_bind_of_error hload _⟩
  | ok members =>
    obtain ⟨after, hcomposer, _⟩ := composer_perform hload
    exact ⟨after, by rw [hcomposer, hlogs.environment_eq]; rfl⟩

theorem IsReady.rendering_of_found (h : IsReady s) {outcome : Except Fault Members}
    (hfound : Found s outcome) : ∃ after, rendering.perform s =
      (outcome.map fun members => sectionOf members renderSection, after) := by
  obtain ⟨mid, hload, _⟩ := h.load_of_found hfound
  cases outcome with
  | error fault =>
    rw [rendering]
    exact ⟨mid, Action.perform_bind_of_error hload _⟩
  | ok members => exact ⟨mid, rendering_perform hload⟩

theorem not_overtaxes_iff :
    (¬ ∃ fault, Overtaxes nesting bytes fault) ↔
      ∃ members, contentsOf nesting bytes = .ok members := by
  simp only [← contentsOf_eq_error_iff]
  cases contentsOf nesting bytes <;> simp

/-- A displaced section is loaded as it stands. -/
theorem Displaces.sectionOf_eq {value : Value} (h : Displaces nesting bytes name value)
    (hcontents : contentsOf nesting bytes = .ok members) {base : Members}
    (hbase : defaults.get? (Points.ofString name) = some (.object base)) :
    sectionOf members name = value := by
  obtain ⟨given, hgiven, hvalue, hne⟩ := h
  rw [contentsOf_of_isObjectText hgiven] at hcontents
  cases hcontents
  refine sectionOf_of_get? ?_
  rw [get?_overlaid hbase, hvalue]
  cases value with
  | object inner => exact absurd rfl (hne inner)
  | _ => rfl

theorem Displaces.exists_contents {value : Value} (h : Displaces nesting bytes name value) :
    ∃ members, contentsOf nesting bytes = .ok members := by
  obtain ⟨given, hgiven, _⟩ := h
  exact ⟨_, contentsOf_of_isObjectText hgiven⟩

theorem sectionOf_of_not_displaces (hcontents : contentsOf nesting bytes = .ok members)
    {base : Members} (hbase : defaults.get? (Points.ofString name) = some (.object base))
    (h : ∀ value, ¬ Displaces nesting bytes name value) :
    ∃ inner, sectionOf members name = .object inner := by
  rcases section_cases hcontents hbase with ⟨value, hvalue, _⟩ | ⟨_, inner, hinner, _⟩
  · exact absurd hvalue (h value)
  · exact ⟨inner, sectionOf_of_get? hinner⟩

section Readers

variable (hready : IsReady s)
  (hfile : s.files.read s.current (Places.settingsFile s.environment) = .ok bytes)
include hready hfile

theorem exists_load_isComplete_iff :
    (∃ members after, load.perform s = (.ok members, after) ∧ IsComplete members) ↔
      (¬ ∃ fault, Overtaxes s.nesting bytes fault) ∧
        (∀ value, ¬ Displaces s.nesting bytes composerSection value) ∧
        ∀ value, ¬ Displaces s.nesting bytes renderSection value := by
  obtain ⟨mid, hload, _⟩ := hready.load_of_found (.file hfile)
  rw [hload, not_overtaxes_iff]
  constructor
  · rintro ⟨members, _, h, hcomplete⟩
    have hcontents : contentsOf s.nesting bytes = .ok members := (Prod.mk.inj h).1
    exact ⟨⟨members, hcontents⟩, (isComplete_iff hcontents).mp hcomplete⟩
  · rintro ⟨⟨members, hcontents⟩, hplaces⟩
    exact ⟨members, mid, by rw [hcontents], (isComplete_iff hcontents).mpr hplaces⟩

theorem exists_composer_iff :
    (∃ found after, composer.perform s = (.ok found, after)) ↔
      (¬ ∃ fault, Overtaxes s.nesting bytes fault) ∧
        ∀ value, Displaces s.nesting bytes composerSection value → HasNumbers s.environment := by
  obtain ⟨last, hcomposer⟩ := hready.composer_of_found (.file hfile)
  rw [hcomposer, not_overtaxes_iff]
  constructor
  · rintro ⟨found, _, h⟩
    have hfound := (Prod.mk.inj h).1
    cases hcontents : contentsOf s.nesting bytes with
    | error fault =>
      rw [hcontents] at hfound
      cases hfound
    | ok members =>
      rw [hcontents] at hfound
      refine ⟨⟨members, rfl⟩, fun value hvalue => ?_⟩
      have hsection := hvalue.sectionOf_eq hcontents defaults_composer
      exact (composerFrom_of_ne_object (hsection ▸ hvalue.ne_object)).1.mp ⟨found, hfound⟩
  · rintro ⟨⟨members, hcontents⟩, hnumbers⟩
    rw [hcontents]
    by_cases hplace : ∃ value, Displaces s.nesting bytes composerSection value
    · obtain ⟨value, hvalue⟩ := hplace
      have hsection := hvalue.sectionOf_eq hcontents defaults_composer
      obtain ⟨found, hfound⟩ := (composerFrom_of_ne_object (hsection ▸ hvalue.ne_object)).1.mpr
        (hnumbers value hvalue)
      exact ⟨found, last, congrArg (·, last) hfound⟩
    · obtain ⟨inner, hinner⟩ :=
        sectionOf_of_not_displaces hcontents defaults_composer (not_exists.mp hplace)
      exact ⟨_, last, congrArg (·, last) (composerFrom_of_object hinner)⟩

theorem composer_of_displaces {value : Value} (h : Displaces s.nesting bytes composerSection value)
    (hnumbers : ¬ HasNumbers s.environment) :
    ∃ after, composer.perform s = (.error .noAttribute, after) := by
  obtain ⟨last, hcomposer⟩ := hready.composer_of_found (.file hfile)
  obtain ⟨members, hcontents⟩ := h.exists_contents
  have hsection := h.sectionOf_eq hcontents defaults_composer
  have hnone := (composerFrom_of_ne_object (hsection ▸ h.ne_object)).2 hnumbers
  rw [hcontents] at hcomposer
  exact ⟨last, hcomposer.trans (congrArg (·, last) hnone)⟩

theorem error_of_overtaxes {fault : Fault} (h : Overtaxes s.nesting bytes fault) :
    (∃ after, composer.perform s = (.error fault, after)) ∧
      ∃ after, rendering.perform s = (.error fault, after) := by
  obtain ⟨last, hcomposer⟩ := hready.composer_of_found (.file hfile)
  obtain ⟨final, hrendering⟩ := hready.rendering_of_found (.file hfile)
  rw [contentsOf_eq_error_iff.mpr h] at hcomposer hrendering
  exact ⟨⟨last, hcomposer⟩, final, hrendering⟩

theorem rendering_of_displaces {value : Value} (h : Displaces s.nesting bytes renderSection value) :
    ∃ after, rendering.perform s = (.ok value, after) := by
  obtain ⟨last, hrendering⟩ := hready.rendering_of_found (.file hfile)
  obtain ⟨members, hcontents⟩ := h.exists_contents
  have hsection := h.sectionOf_eq hcontents defaults_render
  rw [hcontents] at hrendering
  exact ⟨last, hrendering.trans (congrArg (Except.ok ·, last) hsection)⟩

theorem exists_rendering_iff :
    (∃ inner after, rendering.perform s = (.ok (.object inner), after)) ↔
      (¬ ∃ fault, Overtaxes s.nesting bytes fault) ∧
        ∀ value, ¬ Displaces s.nesting bytes renderSection value := by
  obtain ⟨last, hrendering⟩ := hready.rendering_of_found (.file hfile)
  rw [not_overtaxes_iff]
  constructor
  · rintro ⟨inner, _, h⟩
    refine ⟨?_, fun value hvalue => ?_⟩
    · cases hcontents : contentsOf s.nesting bytes with
      | error fault =>
        rw [hrendering, hcontents] at h
        cases h
      | ok members => exact ⟨members, rfl⟩
    · obtain ⟨_, hsame⟩ := rendering_of_displaces hready hfile hvalue
      rw [h] at hsame
      exact hvalue.ne_object inner (Except.ok.inj (Prod.mk.inj hsame).1).symm
  · rintro ⟨⟨members, hcontents⟩, hno⟩
    obtain ⟨inner, hinner⟩ := sectionOf_of_not_displaces hcontents defaults_render hno
    rw [hcontents] at hrendering
    exact ⟨inner, last, hrendering.trans (congrArg (Except.ok ·, last) hinner)⟩

end Readers

/-- Settings are loaded with every section and every setting of the defaults, unless the bytes of
the file overtax the reader or put something that is no object in the place of a section. The
settings of the composer are had even so when both come from the environment, and else the program
ends; those of rendering are then whatever stands there. -/
theorem sections_settle_iff (s : Session) (bytes : List UInt8) (hready : IsReady s)
    (hfile : s.files.read s.current (Places.settingsFile s.environment) = .ok bytes) :
    ((∃ members after, load.perform s = (.ok members, after) ∧ IsComplete members) ↔
      (¬ ∃ fault, Overtaxes s.nesting bytes fault) ∧
        (∀ value, ¬ Displaces s.nesting bytes composerSection value) ∧
        ∀ value, ¬ Displaces s.nesting bytes renderSection value) ∧
    ((∃ found after, composer.perform s = (.ok found, after)) ↔
      (¬ ∃ fault, Overtaxes s.nesting bytes fault) ∧
        ∀ value, Displaces s.nesting bytes composerSection value → HasNumbers s.environment) ∧
    ((∃ inner after, rendering.perform s = (.ok (.object inner), after)) ↔
      (¬ ∃ fault, Overtaxes s.nesting bytes fault) ∧
        ∀ value, ¬ Displaces s.nesting bytes renderSection value) ∧
    (∀ value, Displaces s.nesting bytes composerSection value → ¬ HasNumbers s.environment →
      ∃ after, composer.perform s = (.error .noAttribute, after)) ∧
    (∀ value, Displaces s.nesting bytes renderSection value →
      ∃ after, rendering.perform s = (.ok value, after)) ∧
    ∀ fault, Overtaxes s.nesting bytes fault →
      (∃ after, composer.perform s = (.error fault, after)) ∧
      ∃ after, rendering.perform s = (.error fault, after) := by
  refine ⟨exists_load_isComplete_iff hready hfile, exists_composer_iff hready hfile,
    exists_rendering_iff hready hfile, ?_, ?_, ?_⟩
  · intro value hvalue hnumbers
    exact composer_of_displaces hready hfile hvalue hnumbers
  · intro value hvalue
    exact rendering_of_displaces hready hfile hvalue
  · intro fault hfault
    exact error_of_overtaxes hready hfile hfault

theorem isObjectText_print (h : Json.IsReadable nesting 0 (.object given)) (layout : Json.Layout) :
    IsObjectText nesting (Utf8.encode (Json.print layout 0 (.object given))) given :=
  ⟨_, rfl, by rw [unifyLineEnds_of_plainText (h.isSavable.plainText layout 0), h.read_print]⟩

/-- A section with one setting of two is completed from the defaults. -/
theorem sections_settle_tempo :
    let given : Members := [named composerSection (.object [named tempoName (.int 90)])]
    let bytes := Utf8.encode (Json.print .line 0 (.object given))
    IsReady (sessionWith bytes) ∧
      (sessionWith bytes).files.read (sessionWith bytes).current
        (Places.settingsFile (sessionWith bytes).environment) = .ok bytes ∧
      ∃ members after, load.perform (sessionWith bytes) = (.ok members, after) ∧
        IsComplete members := by
  intro given bytes
  have hreadable : Json.IsReadable .usual 0 (.object given) := by
    refine .object (by decide) (by decide) (by decide) ?_
    simp only [given, named, List.forall_mem_cons, List.not_mem_nil, false_imp_iff, implies_true,
      and_true]
    refine .object (by decide) (by decide) (by decide) ?_
    simp only [List.forall_mem_cons, List.not_mem_nil, false_imp_iff, implies_true, and_true]
    exact .int (by decide +kernel)
  have hobject : IsObjectText .usual bytes given := isObjectText_print hreadable .line
  refine ⟨isReady_sessionWith bytes, read_sessionWith bytes, ?_⟩
  refine (sections_settle_iff _ bytes (isReady_sessionWith bytes) (read_sessionWith bytes)).1.mpr
    ⟨not_overtaxes_iff.mpr ⟨_, contentsOf_of_isObjectText hobject⟩, ?_, ?_⟩
  · intro value hvalue
    obtain ⟨hget, hne⟩ := (displaces_iff hobject).mp hvalue
    cases hget
    exact hne _ rfl
  · intro value hvalue
    obtain ⟨hget, _⟩ := (displaces_iff hobject).mp hvalue
    rw [show given.get? (Points.ofString renderSection) = none by decide] at hget
    cases hget

/-- A number in the place of the section of the composer ends the program. -/
theorem composer_of_number :
    let bytes := Utf8.encode "\x7b\"composer\": 5\x7d".toList
    (∃ given, IsObjectText .usual bytes given) ∧
      ∃ after, composer.perform (sessionWith bytes) = (.error .noAttribute, after) := by
  intro bytes
  have hreadable : Json.IsReadable .usual 0 (.object [named composerSection (.int 5)]) := by
    refine .object (by decide) (by decide) (by decide) ?_
    simp only [named, List.forall_mem_cons, List.not_mem_nil, false_imp_iff, implies_true, and_true]
    exact .int (by decide +kernel)
  have hobject : IsObjectText .usual bytes [named composerSection (.int 5)] :=
    isObjectText_print hreadable .line
  refine ⟨⟨_, hobject⟩, composer_of_displaces (isReady_sessionWith bytes) (read_sessionWith bytes)
    ((displaces_iff hobject).mpr ⟨rfl, ?_⟩) ?_⟩
  · intro inner h
    cases h
  · rintro ⟨⟨n, hn⟩, _⟩
    cases hn

end Ringtone.Settings
