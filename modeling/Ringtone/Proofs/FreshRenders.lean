import Ringtone.Proofs.AddedFiles
import Ringtone.Proofs.FreshPaths
import Ringtone.Proofs.RenderDecisions

/-!
# Rendering without a path

A run that renders without a path to write to searches for one at which nothing is. All that it does
before only adds files, and what it writes then is a new file. From one run to the next every file
stays as it is, so that of any number of runs at one moment each that succeeds has a file of its
own.
-/

namespace Ringtone.Commands

open CommandLine Files Number Sound

variable {s mid after : Session} {place : Place}

/-! ## Files that are new -/

/-- A rendered file that is there later and was not before, under one of the names of the moment. -/
structure NewRender (before after : Session) (place : Place) : Prop where
  was_free : before.files.kindAt? place = none
  exists_file : ∃ content, after.files.kindAt? place = some (.file content)
  exists_path : ∃ index, after.files.placeOf after.current
    (Places.renderPath (Places.rendersDirectory after.environment) after.now index) = .ok place

theorem NewRender.of_adds (h : NewRender mid after place) (hadds : s.Adds mid) :
    NewRender s after place :=
  ⟨hadds.files.kindAt?_eq_none h.was_free, h.exists_file, h.exists_path⟩

theorem NewRender.stays (h : NewRender s mid place) (hadds : mid.Adds after) :
    NewRender s after place := by
  obtain ⟨content, hfile⟩ := h.exists_file
  obtain ⟨index, hplace⟩ := h.exists_path
  refine ⟨h.was_free, ⟨content, hadds.files _ _ hfile⟩, index, ?_⟩
  rw [hadds.current_eq, hadds.environment_eq, hadds.now_eq]
  exact hadds.keeps.placeOf hplace

/-- What comes of an action only adds files, and success leaves a new rendered file. -/
structure Renews (s : Session) (result : Except Fault ℕ × Session) : Prop where
  adds : s.Adds result.2
  exists_new : result.1 = .ok success → ∃ place, NewRender s result.2 place

section Renewing

variable {α : Type} {result : Except Fault ℕ × Session} {first : Action α} {next : α → Action ℕ}

theorem Renews.of_adds (h : Renews mid result) (hadds : s.Adds mid) : Renews s result := by
  refine ⟨hadds.trans h.adds, fun hsuccess => ?_⟩
  obtain ⟨place, hnew⟩ := h.exists_new hsuccess
  exact ⟨place, hnew.of_adds hadds⟩

theorem renews_of_ne (hadds : s.Adds result.2) (hne : result.1 ≠ .ok success) :
    Renews s result := ⟨hadds, fun hsuccess => absurd hsuccess hne⟩

theorem renews_bind (hfirst : Action.OnlyAdds first)
    (hnext : ∀ a mid, mid.IsPlaced → Renews mid ((next a).perform mid)) (hs : s.IsPlaced) :
    Renews s ((first >>= next).perform s) := by
  cases hperform : first.perform s with
  | mk outcome mid =>
    have hadds := hfirst.adds hs hperform
    cases outcome with
    | error fault =>
      rw [Action.perform_bind_of_error hperform]
      exact renews_of_ne hadds (by simp)
    | ok a =>
      rw [Action.perform_bind_of_ok hperform]
      exact (hnext a mid (hs.of_adds hadds)).of_adds hadds

theorem EndsWithError.adds (h : EndsWithError s after) : s.Adds after := by
  obtain ⟨_, _, _, rfl⟩ := h
  exact .of_eq rfl rfl rfl rfl

theorem EndsWithError.renews (h : EndsWithError s after) : Renews s (.ok failure, after) :=
  renews_of_ne h.adds (by simp [failure, success])

theorem renews_fail (message : String) (s : Session) : Renews s ((fail message).perform s) := by
  obtain ⟨after, hfail, hends⟩ := fail_perform message (.refl s)
  rw [hfail]
  exact hends.renews

theorem renews_reporting {reported : Fault → Option String} (hfirst : Action.OnlyAdds first)
    (hnext : ∀ a mid, mid.IsPlaced → Renews mid ((next a).perform mid)) (hs : s.IsPlaced) :
    Renews s ((reporting reported first next).perform s) := by
  cases hperform : first.perform s with
  | mk outcome mid =>
    have hadds := hfirst.adds hs hperform
    cases outcome with
    | ok a =>
      rw [reporting_of_ok hperform]
      exact (hnext a mid (hs.of_adds hadds)).of_adds hadds
    | error fault =>
      cases hwords : reported fault with
      | some message =>
        rw [reporting_of_message hperform hwords]
        exact (renews_fail message mid).of_adds hadds
      | none =>
        rw [reporting_of_silent hperform hwords]
        exact renews_of_ne hadds (by simp)

end Renewing

/-! ## Writing where nothing is -/

section Writing

variable {part : String} {rate style : Value} {path : Path} {tones : List Tone}
  {samples : List Float} {content : List UInt8}

/-- What can be made of the samples is written, and no other place changes. -/
theorem writeOut_of_free (part : String) (style : Value) (tones : List Tone) (hs : s.IsPlaced)
    (hpath : Action.IsPath path) (hplace : s.files.placeOf s.current path = .ok place)
    (hnone : s.files.kindAt? place = none) (hwav : wav rate (quantiseAll samples) = .ok content) :
    ∃ after, (writeOut part rate style path tones samples).perform s = (.ok success, after) ∧
      s.Adds after ∧ after.output = s.output ++ path.toString ++ "\n" ∧
      after.files.kindAt? place = some (.file content) := by
  have hopen : s.files.write s.current path [] = .ok (s.files.put place (.file [])) :=
    Node.write_eq_ok_iff.mpr ⟨place, hplace, by simp [hnone], rfl⟩
  obtain ⟨written, after, hwritten, hrun, hlogs⟩ :=
    writeOut_of_wav part style tones hpath hopen hwav
  obtain ⟨found, hfound, hfile, hothers⟩ := Node.kindAt?_of_write_write hs hopen hwritten
  have hkeeps := (Node.keeps_of_write hopen).trans (Node.keeps_of_write hwritten)
  obtain rfl : place = found := Except.ok.inj ((hkeeps.placeOf hplace).symm.trans hfound)
  have hadds : s.Adds { s with
      files := written, output := s.output ++ path.toString ++ "\n" } :=
    ⟨Node.extends_of_free hnone hothers, rfl, rfl, rfl⟩
  refine ⟨after, hrun, hadds.trans hlogs.adds, hlogs.output_eq, ?_⟩
  rw [hlogs.files_eq]
  exact hfile

/-- Where nothing can be made of the samples, an empty file is left. -/
theorem writeOut_of_free_of_error (part : String) (style : Value) (tones : List Tone)
    (hs : s.IsPlaced) (hpath : Action.IsPath path)
    (hplace : s.files.placeOf s.current path = .ok place) (hnone : s.files.kindAt? place = none)
    {fault : Fault} (hwav : wav rate (quantiseAll samples) = .error fault) :
    ∃ after, (writeOut part rate style path tones samples).perform s = (.error fault, after) ∧
      s.Adds after := by
  have hopen : s.files.write s.current path [] = .ok (s.files.put place (.file [])) :=
    Node.write_eq_ok_iff.mpr ⟨place, hplace, by simp [hnone], rfl⟩
  have hkinds := Node.kindAt?_of_write hs hopen hplace
  refine ⟨_, writeOut_of_wav_error hpath hopen hwav (writeMessage?_of_wav_error hwav path), ?_⟩
  refine ⟨Node.extends_of_free hnone fun other hother => ?_, rfl, rfl, rfl⟩
  rw [hkinds other, if_neg hother]

/-! ## Delivering without a path -/

/-- No path is given, or an empty one, which counts as none. -/
def GivesNoPath (given : Option Argument) : Prop := given.getD [] = []

theorem deliver_of_givesNoPath {given : Option Argument} (hgiven : GivesNoPath given)
    (htones : tones ≠ []) : deliver part given rate style tones samples =
      Places.freshRender >>= fun path => writeOut part rate style path tones samples := by
  have hpath : pathFor given = Places.freshRender := by
    rcases given with _ | _ | ⟨c, rest⟩
    · rfl
    · rfl
    · exact absurd hgiven (List.cons_ne_nil c rest)
  rw [deliver, if_neg (by simpa using htones), hpath]

theorem isPath_rendersDirectory {made : Session}
    (hmade : (Action.ensureDirectory (Places.rendersDirectory s.environment)).perform s =
      (.ok (), made)) : Action.IsPath (Places.rendersDirectory s.environment) :=
  (Action.ensureDirectory_eq_ok_iff.mp hmade).1

/-- A run has written a file where nothing was, at the path that the search ends with, and has told
the path. -/
structure Delivers (s made : Session) (path : Path) (content : List UInt8) (after : Session) :
    Prop where
  search : Places.Search made (Places.rendersDirectory s.environment) (.ok path)
  adds : s.Adds after
  output_eq : after.output = s.output ++ path.toString ++ "\n"
  exists_new : ∃ place, NewRender s after place ∧
    after.files.placeOf after.current path = .ok place ∧
    after.files.kindAt? place = some (.file content)

section Delivering

variable {given : Option Argument} {made : Session} (hs : s.IsPlaced) (hgiven : GivesNoPath given)
  (htones : tones ≠ [])
  (hmade : (Action.ensureDirectory (Places.rendersDirectory s.environment)).perform s =
    (.ok (), made))
include hs hgiven htones hmade

/-- With the directory made, either there is no room for the name that the search comes to, and
nothing is written, or a new file holds what can be made of the samples. -/
theorem deliver_of_made (part : String) (style : Value)
    (hwav : wav rate (quantiseAll samples) = .ok content) :
    (∃ path after, (deliver part given rate style tones samples).perform s = (.ok success, after) ∧
      Delivers s made path content after) ∨
    ∃ fault, (deliver part given rate style tones samples).perform s = (.error fault, made) ∧
      Places.Search made (Places.rendersDirectory s.environment) (.error fault) := by
  have hadds := (Action.onlyAdds_ensureDirectory _).adds hs hmade
  obtain ⟨outcome, hsearch, hfresh, _⟩ := Places.exists_freshRender hmade
  rw [deliver_of_givesNoPath hgiven htones]
  cases hsearch with
  | noRoom htaken hroom =>
    exact Or.inr ⟨_, Action.perform_bind_of_error hfresh _, .noRoom htaken hroom⟩
  | @free index place htaken hplace hnone =>
    obtain ⟨after, hrun, hmore, hout, hfile⟩ := writeOut_of_free part style tones
      (hs.of_adds hadds) (Places.isPath_renderPath (isPath_rendersDirectory hmade)) hplace hnone
      hwav
    have houtput : made.output = s.output := by
      rw [(Action.ensureDirectory_eq_ok_iff.mp hmade).2.2]
    have hall := hadds.trans hmore
    have hlater := hmore.keeps.placeOf hplace
    rw [← hmore.current_eq] at hlater
    refine Or.inl ⟨_, after, (Action.perform_bind_of_ok hfresh _).trans hrun,
      .free htaken hplace hnone, hall, houtput ▸ hout, place, ⟨?_, ⟨content, hfile⟩, index, ?_⟩,
      hlater, hfile⟩
    · exact hadds.files.kindAt?_eq_none hnone
    · rw [hall.environment_eq, hmore.now_eq]
      exact hlater

/-- Nothing can be made of the samples: what is left is an empty file, or nothing. -/
theorem deliver_of_made_of_error (part : String) (style : Value) {fault : Fault}
    (hwav : wav rate (quantiseAll samples) = .error fault) :
    ∃ fault after, (deliver part given rate style tones samples).perform s = (.error fault, after) ∧
      s.Adds after := by
  have hadds := (Action.onlyAdds_ensureDirectory _).adds hs hmade
  obtain ⟨outcome, hsearch, hfresh, _⟩ := Places.exists_freshRender hmade
  rw [deliver_of_givesNoPath hgiven htones]
  cases hsearch with
  | noRoom htaken hroom => exact ⟨_, made, Action.perform_bind_of_error hfresh _, hadds⟩
  | free htaken hplace hnone =>
    obtain ⟨after, hrun, hmore⟩ := writeOut_of_free_of_error part style tones (hs.of_adds hadds)
      (Places.isPath_renderPath (isPath_rendersDirectory hmade)) hplace hnone hwav
    exact ⟨fault, after, (Action.perform_bind_of_ok hfresh _).trans hrun, hadds.trans hmore⟩

end Delivering

theorem renews_deliver {given : Option Argument} (part : String) (rate style : Value)
    (tones : List Tone) (samples : List Float) (hgiven : GivesNoPath given) (hs : s.IsPlaced) :
    Renews s ((deliver part given rate style tones samples).perform s) := by
  by_cases htones : tones = []
  · obtain ⟨after, hfail, hends⟩ := deliver_nil part given rate style samples s
    rw [htones, hfail]
    exact hends.renews
  cases hmade : (Action.ensureDirectory (Places.rendersDirectory s.environment)).perform s with
  | mk outcome made =>
    have hadds := (Action.onlyAdds_ensureDirectory _).adds hs hmade
    cases outcome with
    | error fault =>
      rw [deliver_of_givesNoPath hgiven htones,
        Action.perform_bind_of_error (Places.freshRender_of_error hmade)]
      exact renews_of_ne hadds (by simp)
    | ok _ =>
      cases hwav : wav rate (quantiseAll samples) with
      | error fault =>
        obtain ⟨_, after, hrun, hall⟩ :=
          deliver_of_made_of_error hs hgiven htones hmade part style hwav
        rw [hrun]
        exact renews_of_ne hall (by simp)
      | ok content =>
        rcases deliver_of_made hs hgiven htones hmade part style hwav with
          ⟨path, after, hrun, hdelivers⟩ | ⟨fault, hrun, _⟩
        · obtain ⟨place, hnew, _⟩ := hdelivers.exists_new
          rw [hrun]
          exact ⟨hdelivers.adds, fun _ => ⟨place, hnew⟩⟩
        · rw [hrun]
          exact renews_of_ne hadds (by simp)

end Writing

/-! ## A run -/

theorem onlyAdds_renderScore (options : ScoreOptions) (score : List Char)
    (rate style gap : Value) : Action.OnlyAdds (renderScore options score rate style gap) :=
  (onlyAdds_composerFor options).bind fun composer =>
    (onlyAdds_compileScore composer score).bind fun _ => (Action.onlyAdds_ofExcept _).bind fun _ =>
      Action.onlyAdds_pure _

theorem renews_render (part : String) {options : RenderOptions} (input : List Char)
    (hgiven : GivesNoPath options.path) (hs : s.IsPlaced) :
    Renews s ((render part options input).perform s) := by
  rw [render_eq]
  refine renews_bind Settings.onlyAdds_rendering (fun given mid hmid => ?_) hs
  refine renews_bind (Action.onlyAdds_ofExcept _) (fun style mid hmid => ?_) hmid
  refine renews_bind (Action.onlyAdds_ofExcept _) (fun rate mid hmid => ?_) hmid
  refine renews_bind (Action.onlyAdds_ofExcept _) (fun gap mid hmid => ?_) hmid
  exact renews_reporting (onlyAdds_renderScore _ _ rate style gap)
    (fun (tones, samples) mid => renews_deliver part rate style tones samples hgiven) hmid

/-- The arguments call rendering without a path. -/
def RendersAnywhere (arguments : List Argument) : Prop :=
  ∃ verbose options, Calls Grammars.renderTopic Grammars.render {} arguments verbose options ∧
    GivesNoPath options.path

theorem renews_run (part : String) {arguments : List Argument} (input : List Char)
    (h : RendersAnywhere arguments) (hs : s.IsPlaced) :
    Renews s ((run part arguments input).perform s) := by
  obtain ⟨verbose, options, hcalls, hgiven⟩ := h
  have hplaced : { s with verbose }.IsPlaced := hs
  rw [run_render hcalls]
  exact (renews_render part input hgiven hplaced).of_adds (.of_eq rfl rfl rfl rfl)

/-- A run comes to writing: the settings are loaded and give, with the options, a rate, a style and
a gap; the score is rendered to tones; and a file can be made of their samples. -/
inductive ComesToWriting (s : Session) (options : RenderOptions) (input : List Char)
    (loaded : Session) (content : List UInt8) : Prop
  | intro {members : Members} {rate style gap : Value} {tones : List Tone} {samples : List Float}
      (hload : Settings.load.perform s = (.ok members, loaded))
      (hstyle : styleFor options.style (Settings.sectionOf members Settings.renderSection) =
        .ok style)
      (hrate : rateFor options.rate (Settings.sectionOf members Settings.renderSection) =
        .ok rate)
      (hgap : gapFor options.gap (Settings.sectionOf members Settings.renderSection) = .ok gap)
      (hrendered : renderedGiven options.toScoreOptions members loaded.environment
        (scoreOf options.toScoreOptions input) rate style gap = .ok (tones, samples))
      (htones : tones ≠ []) (hwav : wav rate (quantiseAll samples) = .ok content)

/-- A run that comes to writing writes a new file, unless there is no room for its name. -/
theorem run_of_comesToWriting (part : String) {arguments : List Argument} {verbose : Bool}
    {options : RenderOptions} {input : List Char} {loaded made : Session} {content : List UInt8}
    (hcalls : Calls Grammars.renderTopic Grammars.render {} arguments verbose options)
    (hgiven : GivesNoPath options.path) (hs : s.IsPlaced)
    (h : ComesToWriting { s with verbose } options input loaded content)
    (hmade : (Action.ensureDirectory (Places.rendersDirectory s.environment)).perform loaded =
      (.ok (), made)) :
    (∃ path after, (run part arguments input).perform s = (.ok success, after) ∧
      Delivers s made path content after) ∨
    ∃ fault after, (run part arguments input).perform s = (.error fault, after) ∧
      Places.Search made (Places.rendersDirectory s.environment) (.error fault) ∧
      after.files = made.files := by
  obtain ⟨hload, hstyle, hrate, hgap, hrendered, htones, hwav⟩ := h
  have hplaced : { s with verbose }.IsPlaced := hs
  obtain ⟨hready, hfound, hprepares⟩ := Settings.prepares_of_load hplaced hload
  obtain ⟨mid, hmid, hrun⟩ :=
    render_of_load part options input hload hready hfound hstyle hrate hgap
  rw [hrendered] at hrun
  dsimp only at hrun
  have hverbose : s.Adds { s with verbose } := .of_eq rfl rfl rfl rfl
  have hadds : s.Adds mid := hverbose.trans (hprepares.adds.trans hmid.adds)
  have houtput : mid.output = s.output := hmid.output_eq.trans hprepares.logs.output_eq
  -- what has been logged since loading does not matter to the directory or the search
  obtain ⟨hpath, hensure, hsame⟩ := Action.ensureDirectory_eq_ok_iff.mp hmade
  have hagain : (Action.ensureDirectory (Places.rendersDirectory mid.environment)).perform mid =
      (.ok (), { mid with files := made.files }) := by
    refine Action.ensureDirectory_eq_ok_iff.mpr ⟨hadds.environment_eq ▸ hpath, ?_, rfl⟩
    rw [hadds.environment_eq, hmid.files_eq, hmid.current_eq]
    exact hensure
  have hsearches : ∀ {outcome}, Places.Search { mid with files := made.files }
      (Places.rendersDirectory mid.environment) outcome →
        Places.Search made (Places.rendersDirectory s.environment) outcome := by
    intro outcome hsearch
    rw [hadds.environment_eq] at hsearch
    refine hsearch.congr rfl ?_ ?_
    · rw [hsame]
      exact hmid.current_eq.symm
    · rw [hsame]
      exact hmid.adds.now_eq.symm
  rw [run_render hcalls, hrun]
  rcases deliver_of_made (hs.of_adds hadds) hgiven htones hagain part _ hwav with
    ⟨path, after, hdeliver, hdelivers⟩ | ⟨fault, hdeliver, hsearch⟩
  · obtain ⟨place, hnew, hat, hfile⟩ := hdelivers.exists_new
    exact Or.inl ⟨path, after, hdeliver, hsearches hdelivers.search, hadds.trans hdelivers.adds,
      houtput ▸ hdelivers.output_eq, place, hnew.of_adds hadds, hat, hfile⟩
  · exact Or.inr ⟨fault, _, hdeliver, hsearches hsearch, rfl⟩

/-! ## Runs one after the other -/

/-- The outcomes of actions, each in the session that the one before leaves, and the session after
them all. -/
def performAll : List (Action ℕ) → Session → List (Except Fault ℕ) × Session
  | [], s => ([], s)
  | action :: rest, s =>
    let first := action.perform s
    let later := performAll rest first.2
    (first.1 :: later.1, later.2)

/-- Whether a run has ended with success. -/
def isSuccess : Except Fault ℕ → Bool
  | .ok code => code = success
  | .error _ => false

theorem isSuccess_iff {outcome : Except Fault ℕ} :
    isSuccess outcome = true ↔ outcome = .ok success := by
  cases outcome <;> simp [isSuccess]

/-- Each success among actions that renew has a file of its own. -/
theorem performAll_renews {actions : List (Action ℕ)} (hs : s.IsPlaced)
    (h : ∀ action ∈ actions, ∀ mid : Session, mid.IsPlaced → Renews mid (action.perform mid)) :
    s.Adds (performAll actions s).2 ∧ ∃ places : List Place,
      places.length = (performAll actions s).1.countP isSuccess ∧ places.Nodup ∧
        ∀ place ∈ places, NewRender s (performAll actions s).2 place := by
  induction actions generalizing s with
  | nil => exact ⟨.refl s, [], rfl, List.nodup_nil, List.forall_mem_nil _⟩
  | cons action rest ih =>
    obtain ⟨hfirst, hrest⟩ := List.forall_mem_cons.mp h
    have hrenews := hfirst s hs
    rw [performAll]
    generalize hperform : action.perform s = first at hrenews
    obtain ⟨outcome, mid⟩ := first
    obtain ⟨hadds, hnew⟩ := hrenews
    obtain ⟨hmore, places, hlength, hnodup, hplaces⟩ := ih (hs.of_adds hadds) hrest
    refine ⟨hadds.trans hmore, ?_⟩
    cases hcount : isSuccess outcome with
    | false =>
      refine ⟨places, ?_, hnodup, fun place hplace => (hplaces place hplace).of_adds hadds⟩
      rw [List.countP_cons_of_neg (by simp [hcount]), hlength]
    | true =>
      -- a place that is new after this run cannot be the one that this run has filled
      obtain ⟨place, hthis⟩ := hnew (isSuccess_iff.mp hcount)
      have hother : place ∉ places := by
        intro hmem
        obtain ⟨content, hfile⟩ := hthis.exists_file
        have hfree := (hplaces place hmem).was_free
        rw [hfile] at hfree
        cases hfree
      refine ⟨place :: places, ?_, List.nodup_cons.mpr ⟨hother, hnodup⟩,
        List.forall_mem_cons.mpr ⟨hthis.stays hmore,
          fun other hmem => (hplaces other hmem).of_adds hadds⟩⟩
      rw [List.countP_cons_of_pos hcount, List.length_cons, hlength]

/-- Where the directory of the rendered files can be made, the search for a path ends, with as many
attempts as there are entries and one more or with any greater number: with the path of the first
name that is not taken, at which nothing is, or with a fault if there is no room for that name. Runs
that render without a path, as many as there are, change no file that was there, and each that
succeeds has a new file of its own. A run that comes to writing succeeds and leaves at the path that
it finds the file of its samples, unless there is no room for the name. -/
theorem renders_are_fresh (part : String) (hs : s.files.kindAt? s.current = some .directory) :
    (∀ made, (Action.ensureDirectory (Places.rendersDirectory s.environment)).perform s =
        (.ok (), made) →
      ∃ outcome, Places.Search made (Places.rendersDirectory s.environment) outcome ∧
        Places.freshRender.perform s = (outcome, made) ∧
        ∀ attempts, Places.entryCount made (Places.rendersDirectory s.environment) < attempts →
          (Places.firstFree (Places.rendersDirectory s.environment) made.now attempts 0).perform
            made = (outcome, made)) ∧
    (∀ calls : List (List Argument × List Char), (∀ call ∈ calls, RendersAnywhere call.1) →
      s.files.Extends (performAll (calls.map fun call => run part call.1 call.2) s).2.files ∧
      ∃ places : List Place, places.length =
          (performAll (calls.map fun call => run part call.1 call.2) s).1.countP isSuccess ∧
        places.Nodup ∧ ∀ place ∈ places,
          NewRender s (performAll (calls.map fun call => run part call.1 call.2) s).2 place) ∧
    ∀ arguments verbose options input loaded made content,
      Calls Grammars.renderTopic Grammars.render {} arguments verbose options →
      GivesNoPath options.path →
      ComesToWriting { s with verbose } options input loaded content →
      (Action.ensureDirectory (Places.rendersDirectory s.environment)).perform loaded =
        (.ok (), made) →
      (∃ path after, (run part arguments input).perform s = (.ok success, after) ∧
        Delivers s made path content after) ∨
      ∃ fault after, (run part arguments input).perform s = (.error fault, after) ∧
        Places.Search made (Places.rendersDirectory s.environment) (.error fault) ∧
        after.files = made.files := by
  refine ⟨fun made => Places.exists_freshRender, fun calls hcalls => ?_,
    fun arguments verbose options input loaded made content hcalls hgiven h hmade =>
      run_of_comesToWriting part hcalls hgiven hs h hmade⟩
  have hrenews : ∀ action ∈ calls.map fun call => run part call.1 call.2,
      ∀ mid : Session, mid.IsPlaced → Renews mid (action.perform mid) := by
    intro action haction mid hmid
    obtain ⟨call, hcall, rfl⟩ := List.mem_map.mp haction
    exact renews_run part call.2 (hcalls call hcall) hmid
  obtain ⟨hadds, hplaces⟩ := performAll_renews hs hrenews
  exact ⟨hadds.files, hplaces⟩

/-! ## A directory with a gap -/

/-- A session with the default settings and two rendered files of its moment, the first and the
third. -/
def gapSession : Session :=
  { Settings.sessionWith Settings.defaultBytes with
    files := .directory [("nc".toList, .directory
      [("config".toList, .directory [("config.json".toList, .file Settings.defaultBytes)]),
        ("data".toList, .directory [("renders".toList, .directory
          [("2026-01-01-00-00-00.wav".toList, .file []),
            ("2026-01-01-00-00-00-2.wav".toList, .file [])])])])] }

theorem hasDefaults_gapSession : HasDefaults gapSession := by
  refine ⟨⟨rfl, rfl⟩, ?_, ⟨rfl, rfl⟩⟩
  rw [← Settings.contentsOf_defaultBytes .usual]
  exact .file rfl

/-- The options that render a quarter note without a path. -/
def quarterAnywhere : RenderOptions := { quarterToFile with path := none }

/-- The arguments that render a quarter note without a path. -/
def renderQuarterAnywhere : List Argument :=
  ["render", "4c4", "--bpm", "120", "--a4", "440", "--sample-rate", "8000", "--style", "square",
    "--gap-ms", "20"].map String.toList

theorem calls_renderQuarterAnywhere : Calls Grammars.renderTopic Grammars.render {}
    renderQuarterAnywhere false quarterAnywhere :=
  ⟨_, by cbv, by cbv⟩

/-- With the default settings, rendering a quarter note comes to writing its 4000 samples. -/
theorem HasDefaults.comesToWriting_quarter (h : HasDefaults s) :
    ∃ loaded content, s.Logs loaded ∧ ComesToWriting s quarterAnywhere [] loaded content := by
  obtain ⟨loaded, hload, hlogs⟩ := h.ready.load_of_found h.found
  obtain ⟨samples, hsamples, hlength⟩ := exists_samples_of_isCompiled
    (Composer.isCompiled_of_compile compile_quarter) (by decide : 1 ≤ 8000) (by decide) .square 20
  have hdefault : samplesByDefault quarterAnywhere [⟨262, 500⟩] = .ok samples := hsamples
  have hrendered := renderedGiven_defaults (hlogs.environment_eq ▸ h.numbers) quarterAnywhere
    "4c4".toList
  rw [renderedByDefault_eq composerByDefault_quarter compile_quarter, hdefault] at hrendered
  have hsize : 36 + 2 * (quantiseAll samples).length < wordLimit := by
    rw [length_quantiseAll, hlength]
    decide
  exact ⟨loaded, _, hlogs, .intro hload (styleFor_defaults quarterAnywhere)
    (rateFor_defaults quarterAnywhere) (gapFor_defaults quarterAnywhere) hrendered
    (List.cons_ne_nil _ _) (wav_natCast (by decide : 2 * 8000 < wordLimit) hsize)⟩

theorem ensureDirectory_gapSession {loaded : Session} (h : gapSession.Logs loaded) :
    (Action.ensureDirectory (Places.rendersDirectory gapSession.environment)).perform loaded =
      (.ok (), loaded) := by
  obtain ⟨_, _, rfl⟩ := h
  exact Action.ensureDirectory_eq_ok_iff.mpr ⟨rfl, rfl, rfl⟩

theorem search_gapSession : Places.Search gapSession
    (Places.rendersDirectory gapSession.environment)
    (.ok (Places.renderPath (Places.rendersDirectory gapSession.environment) gapSession.now 1)) := by
  have htaken : Places.TakenBefore gapSession
      (Places.rendersDirectory gapSession.environment) 1 := by
    intro earlier hearlier
    obtain rfl : earlier = 0 := by omega
    decide +kernel
  have hplace : gapSession.files.placeOf gapSession.current
      (Places.renderPath (Places.rendersDirectory gapSession.environment) gapSession.now 1) =
        .ok ["nc".toList, "data".toList, "renders".toList,
          "2026-01-01-00-00-00-1.wav".toList] := by
    decide +kernel
  exact .free htaken hplace (by decide +kernel)

/-- The second of the names is free, and a quarter note is rendered to its path; the files that were
there stay. -/
theorem renders_are_fresh_gap :
    gapSession.files.kindAt? gapSession.current = some .directory ∧
      ∃ after place, (run Commands.part renderQuarterAnywhere []).perform gapSession =
          (.ok success, after) ∧
        after.output = "nc/data/renders/2026-01-01-00-00-00-1.wav\n" ∧
        NewRender gapSession after place ∧ gapSession.files.Extends after.files := by
  have hquiet : { gapSession with verbose := false } = gapSession := rfl
  obtain ⟨loaded, content, hlogs, hwrites⟩ := hasDefaults_gapSession.comesToWriting_quarter
  rw [← hquiet] at hwrites
  have hdirectory : loaded.files.isDirectory loaded.current
      (Places.rendersDirectory gapSession.environment) = .ok true := by
    rw [hlogs.files_eq, hlogs.current_eq]
    rfl
  have hsearch := search_gapSession.congr hlogs.files_eq hlogs.current_eq hlogs.adds.now_eq
  obtain ⟨_, _, hdelivers⟩ := renders_are_fresh Commands.part (s := gapSession) rfl
  rcases hdelivers _ _ _ _ _ _ _ calls_renderQuarterAnywhere rfl hwrites
    (ensureDirectory_gapSession hlogs) with ⟨path, after, hrun, hfresh⟩ | ⟨fault, _, _, hfault, _⟩
  · have hpath := Except.ok.inj (hfresh.search.unique hsearch hdirectory)
    obtain ⟨place, hnew, _⟩ := hfresh.exists_new
    refine ⟨rfl, after, place, hrun, ?_, hnew, hfresh.adds.files⟩
    rw [hfresh.output_eq, hpath]
    decide
  · cases hfault.unique hsearch hdirectory

/-! ## A directory without room -/

open Settings (deepSession)

/-- The directory of the rendered files is made, and yet there is no path for a file in it. -/
theorem freshRender_without_room :
    ∃ made fault, (Action.ensureDirectory
        (Places.rendersDirectory deepSession.environment)).perform deepSession = (.ok (), made) ∧
      Places.freshRender.perform deepSession = (.error fault, made) := by
  have hvalid : Action.IsPath (Places.rendersDirectory deepSession.environment) := by
    rw [Action.IsPath]
    decide +kernel
  have hensure : (deepSession.files.ensureDirectory deepSession.current
      (Places.rendersDirectory deepSession.environment)).1.toBool = true := by
    decide +kernel
  have hroom : Files.Node.NoRoom (Places.rendersDirectory deepSession.environment)
      (Places.renderName deepSession.now 0) := by
    decide +kernel
  obtain ⟨files, hfiles⟩ : ∃ files, deepSession.files.ensureDirectory deepSession.current
      (Places.rendersDirectory deepSession.environment) = (.ok (), files) := by
    generalize deepSession.files.ensureDirectory deepSession.current
      (Places.rendersDirectory deepSession.environment) = result at hensure
    obtain ⟨_ | _, files⟩ := result
    · cases hensure
    · exact ⟨files, rfl⟩
  have hmade : (Action.ensureDirectory
      (Places.rendersDirectory deepSession.environment)).perform deepSession =
        (.ok (), { deepSession with files }) :=
    Action.ensureDirectory_eq_ok_iff.mpr ⟨hvalid, hfiles, rfl⟩
  obtain ⟨outcome, hsearch, hfresh, _⟩ := Places.exists_freshRender hmade
  have hends := Places.search_of_noRoom (s := { deepSession with files }) hroom
  rw [hsearch.unique hends (Files.Node.isDirectory_of_ensureDirectory hfiles)] at hfresh
  exact ⟨_, _, hmade, hfresh⟩

end Ringtone.Commands
