import Mathlib.Data.List.TakeWhile
import Ringtone.Proofs.CommandRuns
import Ringtone.Proofs.Traversal

/-!
# Reading command lines

The settings that a command line makes come about by the switches and the operand of its grammar,
one after the other, so that a property that each of them keeps holds of all that is read: a whole
number that is given has few enough digits to be written. A number is plain also when it is
negative, as long as no name of a switch has a digit behind its first dash.
-/

namespace Ringtone

namespace CommandLine

open Number Text

variable {σ : Type} {grammar : Grammar σ}

/-! ## The switches that are named -/

/-- The switch that an argument looks like is one of the grammar. -/
def Looks.IsOf (grammar : Grammar σ) : Looks σ → Prop
  | .switch found _ _ => found ∈ grammar.switches
  | _ => True

theorem Grammar.mem_of_mem_names {name : Argument} {switch : Switch σ}
    (h : (name, switch) ∈ grammar.names) : switch ∈ grammar.switches := by
  obtain ⟨other, hother, hname⟩ := List.mem_flatMap.mp h
  obtain ⟨_, _, hsame⟩ := List.mem_map.mp hname
  cases hsame
  exact hother

theorem Grammar.mem_of_find? {name : Argument} {switch : Switch σ}
    (h : grammar.find? name = some switch) : switch ∈ grammar.switches := by
  obtain ⟨⟨_, _⟩, hfind, rfl⟩ := Option.map_eq_some_iff.mp h
  exact Grammar.mem_of_mem_names (List.mem_of_find?_eq_some hfind)

theorem Grammar.mem_of_mem_candidates {argument name : Argument} {switch : Switch σ}
    {attached : Option Argument} (h : (name, switch, attached) ∈ grammar.candidates argument) :
    switch ∈ grammar.switches := by
  unfold candidates at h
  split at h
  · obtain ⟨⟨other, found⟩, hmem, hname⟩ := List.mem_filterMap.mp h
    dsimp only at hname
    split_ifs at hname
    cases hname
    exact Grammar.mem_of_mem_names hmem
  · obtain ⟨⟨other, found⟩, hmem, hname⟩ := List.mem_filterMap.mp h
    dsimp only at hname
    split_ifs at hname
    · cases hname
      exact Grammar.mem_of_mem_names hmem
    · cases hname
      exact Grammar.mem_of_mem_names hmem
  · cases h

theorem Grammar.sortUnnamed_isOf {argument : Argument} {looks : Looks σ}
    (h : grammar.sortUnnamed argument = .ok looks) : looks.IsOf grammar := by
  unfold sortUnnamed at h
  split at h
  · rename_i hcandidates
    cases h
    exact Grammar.mem_of_mem_candidates (hcandidates ▸ List.mem_singleton_self _)
  · cases h
    split_ifs <;> trivial
  · cases h

theorem Grammar.sort_isOf {argument : Argument} {looks : Looks σ}
    (h : grammar.sort argument = .ok looks) : looks.IsOf grammar := by
  unfold sort at h
  split at h
  · split at h
    · rename_i hfind
      cases h
      exact Grammar.mem_of_find? hfind
    · split at h
      · split at h
        · rename_i hfind
          cases h
          exact Grammar.mem_of_find? hfind
        · exact Grammar.sortUnnamed_isOf h
      · exact Grammar.sortUnnamed_isOf h
  · cases h
    trivial

theorem Grammar.sortAll_isOf {arguments : List Argument} {sorted : List (Sorted σ)}
    (h : grammar.sortAll arguments = .ok sorted) : ∀ x ∈ sorted, x.looks.IsOf grammar := by
  induction arguments generalizing sorted with
  | nil =>
    cases h
    exact List.forall_mem_nil _
  | cons argument rest ih =>
    rw [sortAll] at h
    split_ifs at h
    · cases h
      refine List.forall_mem_cons.mpr ⟨trivial, ?_⟩
      intro x hplain
      obtain ⟨_, _, rfl⟩ := List.mem_map.mp hplain
      trivial
    · obtain ⟨looks, hlooks, h⟩ := bind_eq_ok_iff.mp h
      obtain ⟨others, hothers, h⟩ := bind_eq_ok_iff.mp h
      cases h
      exact List.forall_mem_cons.mpr ⟨Grammar.sort_isOf hlooks, ih hothers⟩

/-- The switches of a word are switches of the grammar. -/
structure Word.IsOf (grammar : Grammar σ) (word : Word σ) : Prop where
  raised : ∀ switch ∈ word.raised, switch ∈ grammar.switches
  last : ∀ switch attached, word.last = some (switch, attached) → switch ∈ grammar.switches

theorem Grammar.letters_isOf {switch : Switch σ} {letters : List Char} {word : Word σ}
    (hswitch : switch ∈ grammar.switches) (h : grammar.letters switch letters = .ok word) :
    word.IsOf grammar := by
  induction letters generalizing switch word with
  | nil =>
    cases h
    exact ⟨List.forall_mem_singleton.mpr hswitch, by simp⟩
  | cons letter rest ih =>
    rw [letters] at h
    split at h
    · cases h
    · rename_i next hnext
      have hmem := Grammar.mem_of_find? hnext
      split at h
      · cases h
        refine ⟨List.forall_mem_singleton.mpr hswitch, ?_⟩
        rintro _ _ ⟨⟩
        exact hmem
      · obtain ⟨later, hlater, h⟩ := bind_eq_ok_iff.mp h
        cases h
        obtain ⟨hraised, hlast⟩ := ih hmem hlater
        exact ⟨List.forall_mem_cons.mpr ⟨hswitch, hraised⟩, hlast⟩

theorem Grammar.word_isOf {switch : Switch σ} {name : Argument} {attached : Option Argument}
    {word : Word σ} (hswitch : switch ∈ grammar.switches)
    (h : grammar.word switch name attached = .ok word) : word.IsOf grammar := by
  unfold Grammar.word at h
  split_ifs at h
  · cases h
    refine ⟨List.forall_mem_nil _, ?_⟩
    rintro _ _ ⟨⟩
    exact hswitch
  · split at h
    · cases h
      exact ⟨List.forall_mem_singleton.mpr hswitch, by simp⟩
    · split_ifs at h
      exact Grammar.letters_isOf hswitch h

/-! ## Properties that are kept -/

section Keeping

variable {keeps : σ → Prop} {settings changed : σ} {argument : Argument}

/-- What a switch does keeps a property of the settings. The whole numbers that it is given can be
written. -/
def Effect.Keeps (keeps : σ → Prop) : Effect σ → Prop
  | .flag apply => ∀ settings, keeps settings → keeps (apply settings)
  | .text _ apply | .choice _ apply =>
    ∀ argument settings, keeps settings → keeps (apply argument settings)
  | .whole _ apply => ∀ n settings, isWritable n = true → keeps settings → keeps (apply n settings)
  | .help => True

/-- What an operand does keeps a property of the settings. -/
def Operand.Keeps (keeps : σ → Prop) : Operand σ → Prop
  | .optional _ _ apply | .text _ _ apply =>
    ∀ argument settings, keeps settings → keeps (apply argument settings)
  | .whole _ _ apply =>
    ∀ n settings, isWritable n = true → keeps settings → keeps (apply n settings)
  | .command _ _ _ apply =>
    ∀ topic following settings, keeps settings → keeps (apply topic following settings)

/-- Every switch and the operand of a grammar keep a property of the settings. -/
structure Grammar.Keeps (grammar : Grammar σ) (keeps : σ → Prop) : Prop where
  switches : ∀ switch ∈ grammar.switches, switch.effect.Keeps keeps
  operand : ∀ operand, grammar.operand = some operand → operand.Keeps keeps

/-- The settings have a property, and the operand that is still missing keeps it. -/
structure Progress.Keeps (progress : Progress σ) (keeps : σ → Prop) : Prop where
  settings : keeps progress.settings
  operand : ∀ operand, progress.operand = some operand → operand.Keeps keeps

theorem isWritable_of_wholeOf {title : String} {n : ℤ} (h : wholeOf title argument = .ok n) :
    isWritable n = true := by
  unfold wholeOf at h
  split at h
  · rename_i hread
    cases h
    exact isWritable_of_readInt? hread
  · cases h

theorem Switch.raise_keeps {switch : Switch σ} (hswitch : switch.effect.Keeps keeps)
    (hsettings : keeps settings) (h : switch.raise settings = .ok changed) : keeps changed := by
  unfold raise at h
  split at h
  · rename_i heffect
    rw [heffect] at hswitch
    cases h
    exact hswitch settings hsettings
  · cases h
  · cases h
    exact hsettings

theorem Switch.set_keeps {switch : Switch σ} (hswitch : switch.effect.Keeps keeps)
    (hsettings : keeps settings) (h : switch.set argument settings = .ok changed) :
    keeps changed := by
  unfold Switch.set at h
  split at h
  · rename_i heffect
    rw [heffect] at hswitch
    cases h
    exact hswitch argument settings hsettings
  · rename_i heffect
    rw [heffect] at hswitch
    obtain ⟨n, hn, h⟩ := bind_eq_ok_iff.mp h
    cases h
    exact hswitch n settings (isWritable_of_wholeOf hn) hsettings
  · rename_i heffect
    rw [heffect] at hswitch
    split_ifs at h
    cases h
    exact hswitch argument settings hsettings
  · cases h
    exact hsettings

theorem raiseAll_keeps {switches : List (Switch σ)}
    (hswitches : ∀ switch ∈ switches, switch.effect.Keeps keeps) (hsettings : keeps settings)
    (h : raiseAll switches settings = .ok changed) : keeps changed := by
  induction switches generalizing settings with
  | nil =>
    cases h
    exact hsettings
  | cons switch rest ih =>
    obtain ⟨hswitch, hrest⟩ := List.forall_mem_cons.mp hswitches
    rw [raiseAll, List.foldlM_cons] at h
    obtain ⟨raised, hraised, h⟩ := bind_eq_ok_iff.mp h
    exact ih hrest (Switch.raise_keeps hswitch hsettings hraised) h

theorem Operand.take_keeps {operand : Operand σ} {following : List Argument}
    (hoperand : operand.Keeps keeps) (hsettings : keeps settings)
    (h : operand.take argument following settings = .ok changed) : keeps changed := by
  cases operand with
  | optional name purpose apply =>
    cases h
    exact hoperand argument settings hsettings
  | text name purpose apply =>
    cases h
    exact hoperand argument settings hsettings
  | whole name purpose apply =>
    obtain ⟨n, hn, h⟩ := bind_eq_ok_iff.mp h
    cases h
    exact hoperand n settings (isWritable_of_wholeOf hn) hsettings
  | command name purpose topics apply =>
    unfold Operand.take at h
    dsimp only at h
    split at h
    · cases h
      exact hoperand _ following settings hsettings
    · cases h

theorem Progress.Keeps.take {progress after : Progress σ} {operand : Operand σ}
    {following : List Argument} (hprogress : progress.Keeps keeps) (hoperand : operand.Keeps keeps)
    (h : progress.take operand argument following = .ok after) : after.Keeps keeps := by
  obtain ⟨taken, htaken, h⟩ := bind_eq_ok_iff.mp h
  cases h
  refine ⟨Operand.take_keeps hoperand hprogress.settings htaken, ?_⟩
  rintro _ ⟨⟩

theorem Progress.Keeps.change {progress : Progress σ} (h : progress.Keeps keeps)
    (hchanged : keeps changed) : Progress.Keeps { progress with settings := changed } keeps :=
  ⟨hchanged, h.operand⟩

theorem Progress.Keeps.leave {progress : Progress σ} (h : progress.Keeps keeps)
    (argument : Argument) : (progress.leave argument).Keeps keeps :=
  ⟨h.settings, h.operand⟩

theorem Progress.Keeps.foldl_leave {progress : Progress σ} (h : progress.Keeps keeps)
    (arguments : List Argument) : (arguments.foldl Progress.leave progress).Keeps keeps := by
  induction arguments generalizing progress with
  | nil => exact h
  | cons argument rest ih => exact ih (h.leave argument)

theorem Progress.Keeps.takeDashes {progress after : Progress σ} {dashes : Argument}
    {plain : List Argument} (hprogress : progress.Keeps keeps)
    (h : progress.takeDashes dashes plain = .ok after) : after.Keeps keeps := by
  unfold Progress.takeDashes at h
  split at h
  · rename_i operand first rest hoperand
    have hkept := hprogress.operand operand hoperand
    split_ifs at h
    · exact hprogress.take hkept h
    · obtain ⟨taken, htaken, h⟩ := bind_eq_ok_iff.mp h
      cases h
      exact (hprogress.take hkept htaken).foldl_leave rest
  · cases h
    exact hprogress
  · cases h
    exact (hprogress.leave dashes).foldl_leave _

/-- One argument after the other keeps what each switch and the operand keep. -/
theorem Grammar.takeAll_keeps (hgrammar : grammar.Keeps keeps) : ∀ (sorted : List (Sorted σ))
    {progress after : Progress σ}, (∀ x ∈ sorted, x.looks.IsOf grammar) → progress.Keeps keeps →
    grammar.takeAll progress sorted = .ok after → after.Keeps keeps
  | [], progress, after, _, hprogress, h => by
    cases h
    exact hprogress
  | ⟨typed, .dashes⟩ :: rest, progress, after, _, hprogress, h =>
    hprogress.takeDashes h
  | ⟨typed, .unknown⟩ :: rest, progress, after, hlooks, hprogress, h =>
    Grammar.takeAll_keeps hgrammar rest (List.forall_mem_cons.mp hlooks).2
      (hprogress.leave typed) h
  | ⟨typed, .plain⟩ :: rest, progress, after, hlooks, hprogress, h => by
    have hrest := (List.forall_mem_cons.mp hlooks).2
    rw [takeAll] at h
    split at h
    · exact Grammar.takeAll_keeps hgrammar rest hrest (hprogress.leave typed) h
    · rename_i operand hoperand
      have hkept := hprogress.operand operand hoperand
      split_ifs at h
      · exact hprogress.take hkept h
      · obtain ⟨taken, htaken, h⟩ := bind_eq_ok_iff.mp h
        have htakenKeeps := hprogress.take hkept htaken
        split at h
        · cases h
          exact htakenKeeps.foldl_leave _
        · exact Grammar.takeAll_keeps hgrammar _ hrest htakenKeeps h
  | ⟨typed, .switch switch name attached⟩ :: rest, progress, after, hlooks, hprogress, h => by
    obtain ⟨hswitch, hrest⟩ := List.forall_mem_cons.mp hlooks
    rw [takeAll] at h
    obtain ⟨word, hword, h⟩ := bind_eq_ok_iff.mp h
    obtain ⟨hraised, hlast⟩ := Grammar.word_isOf hswitch hword
    have hall : ∀ {switches settings}, (∀ switch ∈ switches, switch ∈ grammar.switches) →
        raiseAll switches progress.settings = .ok settings → keeps settings :=
      fun hmem hraise => raiseAll_keeps (fun switch h => hgrammar.switches switch (hmem switch h))
        hprogress.settings hraise
    split at h
    · obtain ⟨settings, hraise, h⟩ := bind_eq_ok_iff.mp h
      exact Grammar.takeAll_keeps hgrammar rest hrest (hprogress.change (hall hraised hraise)) h
    · rename_i last argument hword
      have hkept := hgrammar.switches last (hlast last _ hword)
      obtain ⟨settings, hraise, h⟩ := bind_eq_ok_iff.mp h
      obtain ⟨changed, hset, h⟩ := bind_eq_ok_iff.mp h
      exact Grammar.takeAll_keeps hgrammar rest hrest
        (hprogress.change (Switch.set_keeps hkept (hall hraised hraise) hset)) h
    · rename_i last hword
      have hkept := hgrammar.switches last (hlast last _ hword)
      split at h
      · obtain ⟨settings, hraise, h⟩ := bind_eq_ok_iff.mp h
        obtain ⟨changed, hset, h⟩ := bind_eq_ok_iff.mp h
        exact Grammar.takeAll_keeps hgrammar _ (List.forall_mem_cons.mp hrest).2
          (hprogress.change (Switch.set_keeps hkept (hall hraised hraise) hset)) h
      · cases h
termination_by sorted => sorted.length

/-- What is read has every property that the settings have before and the grammar keeps. -/
theorem Grammar.read_keeps {arguments leftOver : List Argument} (hgrammar : grammar.Keeps keeps)
    (hsettings : keeps settings) (h : grammar.read settings arguments = .ok (changed, leftOver)) :
    keeps changed := by
  obtain ⟨sorted, hsorted, h⟩ := bind_eq_ok_iff.mp h
  obtain ⟨progress, hprogress, h⟩ := bind_eq_ok_iff.mp h
  have hkept := Grammar.takeAll_keeps hgrammar sorted (Grammar.sortAll_isOf hsorted)
    ⟨hsettings, hgrammar.operand⟩ hprogress
  split at h
  · cases h
  · cases h
    exact hkept.settings

end Keeping

/-! ## Plain arguments -/

theorem Grammar.sort_of_head {argument : Argument} (h : argument.head? ≠ some '-') :
    grammar.sort argument = .ok .plain := by
  unfold sort
  split
  · exact absurd rfl h
  · rfl

/-- No name of a switch has a digit behind its first dash. -/
def Grammar.NamesNoDigit (grammar : Grammar σ) : Prop :=
  ∀ entry ∈ grammar.names, entry.1[1]?.any isAsciiDigit = false

instance (grammar : Grammar σ) : Decidable grammar.NamesNoDigit :=
  inferInstanceAs (Decidable (∀ entry ∈ grammar.names, entry.1[1]?.any isAsciiDigit = false))

theorem isNegativeNumber_of_digits {digits : List Char} (hne : digits ≠ [])
    (h : ∀ c ∈ digits, isAsciiDigit c) : isNegativeNumber ('-' :: digits) = true := by
  have hdigit : ∀ c ∈ digits, (digitValue? c).isSome = true := by
    intro c hc
    rw [digitValue?_of_isAsciiDigit (h c hc)]
    rfl
  have htake : digits.takeWhile (fun c => (digitValue? c).isSome) = digits :=
    List.takeWhile_eq_self_iff.mpr hdigit
  have hdrop : digits.dropWhile (fun c => (digitValue? c).isSome) = [] :=
    List.dropWhile_eq_nil_iff.mpr hdigit
  simp only [isNegativeNumber, htake, hdrop]
  exact decide_eq_true hne

/-- What looks like a negative number is plain. -/
theorem Grammar.sort_of_negative (hnames : grammar.NamesNoDigit) {digits : List Char}
    (hne : digits ≠ []) (h : ∀ c ∈ digits, isAsciiDigit c) :
    grammar.sort ('-' :: digits) = .ok .plain := by
  obtain ⟨d, rest, rfl⟩ := List.exists_cons_of_ne_nil hne
  have hd := h d List.mem_cons_self
  have hother : ∀ entry ∈ grammar.names, ∀ more, entry.1 ≠ '-' :: d :: more := by
    intro entry hentry more hsame
    have hdigit := hnames entry hentry
    rw [hsame] at hdigit
    exact absurd (hdigit.symm.trans hd) (by decide)
  have hfind : grammar.find? ('-' :: d :: rest) = none := by
    rw [find?, Option.map_eq_none_iff, List.find?_eq_none]
    intro entry hentry hsame
    exact hother entry hentry rest (of_decide_eq_true hsame)
  have hequals : ∀ c ∈ '-' :: d :: rest, decide (c ≠ '=') = true := by
    intro c hc
    rw [decide_eq_true_eq]
    rintro rfl
    rcases List.mem_cons.mp hc with hc | hc
    · exact absurd hc (by decide)
    · exact absurd (h _ hc) (by decide)
  have hsplit : splitEquals ('-' :: d :: rest) = ('-' :: d :: rest, none) := by
    have hdrop := List.dropWhile_eq_nil_iff.mpr hequals
    simp only [splitEquals, hdrop, List.takeWhile_eq_self_iff.mpr hequals]
  have hcandidates : grammar.candidates ('-' :: d :: rest) = [] := by
    have hdash : d ≠ '-' := by
      rintro rfl
      exact absurd hd (by decide)
    unfold candidates
    split
    · rename_i heq
      cases heq
      exact absurd rfl hdash
    · rename_i letter more _ heq
      cases heq
      rw [List.filterMap_eq_nil_iff]
      rintro ⟨name, switch⟩ hentry
      dsimp only
      rw [if_neg (hother _ hentry []), if_neg]
      intro hprefix
      obtain ⟨more, hmore⟩ := List.isPrefixOf_iff_prefix.mp hprefix
      exact hother _ hentry _ hmore.symm
    · rfl
  simp only [sort, hfind, hsplit, sortUnnamed, hcandidates, isNegativeNumber_of_digits hne h,
    Bool.true_or, if_true]

theorem Grammar.sort_numeral (hnames : grammar.NamesNoDigit) (n : ℤ) :
    grammar.sort (numeral n).toList = .ok .plain := by
  have hdigits : ∀ c ∈ decimalDigits n.natAbs, isAsciiDigit c := fun _ =>
    isAsciiDigit_of_mem_decimalDigits
  rw [numeral, String.toList_ofList]
  split_ifs
  · exact Grammar.sort_of_negative hnames Nat.toDigits_ne_nil hdigits
  · refine Grammar.sort_of_head fun hhead => ?_
    exact absurd (hdigits _ (List.mem_of_head? hhead)) (by decide)

theorem numeral_ne_dashes (n : ℤ) : (numeral n).toList ≠ ['-', '-'] := by
  have hdash : '-' ∉ decimalDigits n.natAbs := fun hmem =>
    absurd (isAsciiDigit_of_mem_decimalDigits hmem) (by decide)
  rw [numeral, String.toList_ofList]
  split_ifs <;> intro hsame
  · rw [(List.cons.inj hsame).2] at hdash
    exact hdash (List.mem_singleton_self _)
  · rw [hsame] at hdash
    exact hdash List.mem_cons_self

theorem Grammar.exists_sortAll {arguments : List Argument}
    (h : ∀ argument ∈ arguments, ∃ looks, grammar.sort argument = .ok looks) :
    ∃ sorted, grammar.sortAll arguments = .ok sorted ∧ sorted.map Sorted.typed = arguments := by
  induction arguments with
  | nil => exact ⟨[], rfl, rfl⟩
  | cons argument rest ih =>
    obtain ⟨⟨looks, hlooks⟩, hrest⟩ := List.forall_mem_cons.mp h
    obtain ⟨sorted, hsorted, htyped⟩ := ih hrest
    rw [sortAll]
    split_ifs
    · refine ⟨_, rfl, ?_⟩
      rw [List.map_cons, List.map_map]
      exact congrArg (argument :: ·) (List.map_id _)
    · refine ⟨⟨argument, looks⟩ :: sorted, ?_, ?_⟩
      · rw [hlooks, hsorted]
        rfl
      · rw [List.map_cons, htyped]

/-! ## Reading from left to right -/

/-- From some progress, the arguments lead to other progress. -/
def Grammar.Reads (grammar : Grammar σ) (progress : Progress σ) (arguments : List Argument)
    (after : Progress σ) : Prop :=
  ∃ sorted, grammar.sortAll arguments = .ok sorted ∧ grammar.takeAll progress sorted = .ok after ∧
    ∀ typed more, sorted ≠ ⟨typed, .dashes⟩ :: more

theorem Grammar.Reads.nil (progress : Progress σ) : grammar.Reads progress [] progress :=
  ⟨[], rfl, rfl, by simp⟩

theorem Grammar.Reads.plain {progress taken after : Progress σ} {argument : Argument}
    {more : List Argument} {operand : Operand σ} (h : grammar.Reads taken more after)
    (hhead : argument.head? ≠ some '-') (hoperand : progress.operand = some operand)
    (hall : operand.takesAll = false) (htake : progress.take operand argument [] = .ok taken) :
    grammar.Reads progress (argument :: more) after := by
  obtain ⟨sorted, hsorted, htaken, hdashes⟩ := h
  have hne : argument ≠ ['-', '-'] := by
    rintro rfl
    exact hhead rfl
  refine ⟨⟨argument, .plain⟩ :: sorted, ?_, ?_, by simp⟩
  · rw [sortAll, if_neg hne, Grammar.sort_of_head hhead, hsorted]
    rfl
  · rw [takeAll, hoperand]
    dsimp only
    rw [hall, if_neg (by decide)]
    refine bind_eq_ok_iff.mpr ⟨taken, htake, ?_⟩
    split
    · exact absurd rfl (hdashes _ _)
    · exact htaken

/-- A switch that takes nothing is raised. -/
theorem Grammar.Reads.flag {progress after : Progress σ} {name : Argument} {more : List Argument}
    {switch : Switch σ} {apply : σ → σ}
    (h : grammar.Reads { progress with settings := apply progress.settings } more after)
    (hsort : grammar.sort name = .ok (.switch switch name none))
    (heffect : switch.effect = .flag apply) (hne : name ≠ ['-', '-']) :
    grammar.Reads progress (name :: more) after := by
  obtain ⟨sorted, hsorted, htaken, _⟩ := h
  have hword : grammar.word switch name none = .ok { raised := [switch], last := none } := by
    rw [Grammar.word, heffect]
    rfl
  have hraise : raiseAll [switch] progress.settings = .ok (apply progress.settings) := by
    rw [raiseAll, List.foldlM_cons, Switch.raise, heffect]
    rfl
  refine ⟨⟨name, .switch switch name none⟩ :: sorted, ?_, ?_, by simp⟩
  · rw [sortAll, if_neg hne, hsort, hsorted]
    rfl
  · rw [takeAll]
    exact bind_eq_ok_iff.mpr ⟨_, hword, bind_eq_ok_iff.mpr ⟨_, hraise, htaken⟩⟩

/-- The grammar has a switch of this name that takes a whole number. -/
structure Grammar.TakesNumber (grammar : Grammar σ) (name : Argument) (apply : ℤ → σ → σ) :
    Prop where
  namesNoDigit : grammar.NamesNoDigit
  exists_switch : ∃ switch placeholder, grammar.sort name = .ok (.switch switch name none) ∧
    switch.effect = .whole placeholder apply
  ne_dashes : name ≠ ['-', '-']

/-- A number under the name of its switch, if one is given. -/
def given (name : Argument) : Option ℤ → List Argument
  | none => []
  | some n => [name, (numeral n).toList]

theorem Grammar.Reads.given {progress after : Progress σ} {name : Argument} {apply : ℤ → σ → σ}
    {number : Option ℤ} {more : List Argument} (hname : grammar.TakesNumber name apply)
    (hnumber : ∀ n, number = some n → isWritable n = true)
    (h : grammar.Reads
      { progress with settings := number.elim progress.settings (apply · progress.settings) }
      more after) : grammar.Reads progress (CommandLine.given name number ++ more) after := by
  cases number with
  | none => exact h
  | some n =>
    obtain ⟨sorted, hsorted, htaken, _⟩ := h
    obtain ⟨switch, placeholder, hsort, heffect⟩ := hname.exists_switch
    have hnumeral := Grammar.sort_numeral hname.namesNoDigit n
    have hne := numeral_ne_dashes n
    have hword : grammar.word switch name none =
        .ok { raised := [], last := some (switch, none) } := by
      rw [Grammar.word, heffect]
      rfl
    have hset : switch.set (numeral n).toList progress.settings =
        .ok (apply n progress.settings) := by
      rw [Switch.set, heffect]
      dsimp only
      rw [wholeOf, readInt?_numeral (hnumber n rfl)]
      rfl
    refine ⟨⟨name, .switch switch name none⟩ :: ⟨(numeral n).toList, .plain⟩ :: sorted,
      ?_, ?_, by simp⟩
    · show grammar.sortAll (name :: (numeral n).toList :: more) = _
      rw [sortAll, if_neg hname.ne_dashes, hsort, sortAll, if_neg hne, hnumeral, hsorted]
      rfl
    · rw [takeAll]
      refine bind_eq_ok_iff.mpr ⟨_, hword, ?_⟩
      exact bind_eq_ok_iff.mpr ⟨_, rfl, bind_eq_ok_iff.mpr ⟨_, hset, htaken⟩⟩

theorem Grammar.Reads.read_eq {settings : σ} {arguments : List Argument} {after : Progress σ}
    (h : grammar.Reads { settings, operand := grammar.operand, leftOver := [] } arguments after)
    (hoperand : missingOperand after.operand = none) :
    grammar.read settings arguments = .ok (after.settings, after.leftOver) := by
  obtain ⟨sorted, hsorted, htaken, _⟩ := h
  rw [read]
  refine bind_eq_ok_iff.mpr ⟨sorted, hsorted, bind_eq_ok_iff.mpr ⟨after, htaken, ?_⟩⟩
  rw [hoperand]
  rfl

end CommandLine

namespace Commands

open CommandLine Number Text

/-! ## Calling a command with numbers -/

/-- The tempo of a rest, if one is given, can be written. -/
def RestOptions.IsWritable (options : RestOptions) : Prop :=
  ∀ n, options.tempo = some n → isWritable n = true

theorem rest_keeps : Grammars.rest.Keeps RestOptions.IsWritable := by
  refine ⟨?_, ?_⟩
  · simp only [Grammars.rest, Grammars.tempoSwitch, helpSwitch, List.forall_mem_cons,
      List.not_mem_nil, false_imp_iff, implies_true, and_true, Effect.Keeps, true_and]
    rintro n _ hn _ _ ⟨⟩
    exact hn
  · rintro _ ⟨⟩ n settings _ h
    exact h

/-- The commands of the program. -/
def topics : List Topic :=
  [Grammars.compileTopic, Grammars.renderTopic, Grammars.frequencyTopic, Grammars.restTopic,
    Grammars.settingsTopic]

/-- The switch that asks for every message, if they are asked for. -/
def loud (verbose : Bool) : List Argument := if verbose then ["--verbose".toList] else []

/-- The name of a command leads to the command, with all that follows it. -/
theorem program_read {topic : Topic} {own : List Argument} (verbose : Bool)
    (htopic : topic ∈ topics)
    (h : ∀ argument ∈ own, ∃ looks, Grammars.program.sort argument = .ok looks) :
    Grammars.program.read {} (loud verbose ++ topic.name.toList :: own) =
      .ok ({ verbose, command := some (topic, own) }, []) := by
  obtain ⟨sorted, hsorted, htyped⟩ := Grammar.exists_sortAll h
  simp only [topics, List.mem_cons, List.not_mem_nil, or_false] at htopic
  have hplain : Grammars.program.sort topic.name.toList = .ok .plain := by
    rcases htopic with rfl | rfl | rfl | rfl | rfl <;> rfl
  have hdashes : topic.name.toList ≠ ['-', '-'] := by
    rcases htopic with rfl | rfl | rfl | rfl | rfl <;> decide
  have hall : Grammars.program.sortAll (topic.name.toList :: own) =
      .ok (⟨topic.name.toList, .plain⟩ :: sorted) := by
    rw [Grammar.sortAll, if_neg hdashes, hplain, hsorted]
    rfl
  have hreads : ∀ verbose, Grammars.program.Reads ⟨{ verbose }, Grammars.program.operand, []⟩
      (topic.name.toList :: own) ⟨{ verbose, command := some (topic, own) }, none, []⟩ := by
    intro verbose
    refine ⟨_, hall, ?_, by simp⟩
    rw [Grammar.takeAll, ← htyped]
    rcases htopic with rfl | rfl | rfl | rfl | rfl <;> rfl
  cases verbose with
  | false => exact (hreads false).read_eq rfl
  | true =>
    obtain ⟨switch, hsort, heffect⟩ : ∃ switch, Grammars.program.sort "--verbose".toList =
        .ok (.switch switch "--verbose".toList none) ∧
          switch.effect = .flag fun options => { options with verbose := true } := ⟨_, rfl, rfl⟩
    have hloud : Grammars.program.Reads ⟨{}, Grammars.program.operand, []⟩
        ("--verbose".toList :: topic.name.toList :: own)
        ⟨{ verbose := true, command := some (topic, own) }, none, []⟩ :=
      .flag (hreads true) hsort heffect (by decide)
    exact hloud.read_eq rfl

theorem namesNoDigit_program : Grammars.program.NamesNoDigit := by decide

theorem exists_sort_given {name : Argument}
    (hname : ∃ looks, Grammars.program.sort name = .ok looks) (number : Option ℤ) :
    ∀ argument ∈ given name number, ∃ looks, Grammars.program.sort argument = .ok looks := by
  cases number with
  | none => exact List.forall_mem_nil _
  | some n =>
    have hnumeral := Grammar.sort_numeral namesNoDigit_program n
    exact List.forall_mem_cons.mpr ⟨hname, List.forall_mem_singleton.mpr ⟨_, hnumeral⟩⟩

theorem rest_takesNumber : Grammars.rest.TakesNumber "--bpm".toList
    fun tempo options => { options with tempo := some tempo } :=
  ⟨by decide, ⟨_, _, rfl, rfl⟩, by decide⟩

/-- A rest of some digits is called with the number that they are. -/
theorem calls_rest (verbose : Bool) {digits : List Char} (hne : digits ≠ [])
    (hdigits : ∀ c ∈ digits, isAsciiDigit c)
    (hlength : digits.length ≤ numeralLimit) {tempo : Option ℤ}
    (htempo : ∀ n, tempo = some n → isWritable n = true) :
    Calls Grammars.restTopic Grammars.rest {} (loud verbose ++
      Grammars.restTopic.name.toList :: digits :: given "--bpm".toList tempo) verbose
      { fraction := ofDecimalDigits digits, tempo } := by
  have hhead : digits.head? ≠ some '-' := fun hhead =>
    absurd (hdigits _ (List.mem_of_head? hhead)) (by decide)
  have hwhole : wholeOf "fraction" digits = .ok (ofDecimalDigits digits : ℤ) := by
    rw [wholeOf, readInt?_of_digits hne hdigits hlength]
  refine ⟨digits :: given "--bpm".toList tempo, program_read verbose (by simp [topics]) ?_, ?_⟩
  · refine List.forall_mem_cons.mpr ⟨⟨_, Grammar.sort_of_head hhead⟩, ?_⟩
    exact exists_sort_given ⟨_, rfl⟩ tempo
  · have htake : ∀ {operand}, Grammars.rest.operand = some operand →
        Progress.take ⟨{}, Grammars.rest.operand, []⟩ operand digits [] =
          .ok ⟨{ fraction := ofDecimalDigits digits }, none, []⟩ := by
      rintro _ ⟨⟩
      exact bind_eq_ok_iff.mpr ⟨_, bind_eq_ok_iff.mpr ⟨_, hwhole, rfl⟩, rfl⟩
    have hread := (Grammar.Reads.plain (Grammar.Reads.given rest_takesNumber htempo (.nil _)) hhead
      rfl rfl (htake rfl)).read_eq rfl
    rw [List.append_nil] at hread
    cases tempo <;> exact hread

theorem compile_takesTempo : Grammars.compile.TakesNumber "--bpm".toList
    fun tempo options => { options with tempo := some tempo } :=
  ⟨by decide, ⟨_, _, rfl, rfl⟩, by decide⟩

theorem compile_takesTuning : Grammars.compile.TakesNumber "--a4".toList
    fun tuning options => { options with tuning := some tuning } :=
  ⟨by decide, ⟨_, _, rfl, rfl⟩, by decide⟩

/-- A score that does not begin with a dash is compiled as it stands. -/
theorem calls_compile (verbose : Bool) {score : List Char} (hhead : score.head? ≠ some '-')
    {tempo tuning : Option ℤ}
    (htempo : ∀ n, tempo = some n → isWritable n = true)
    (htuning : ∀ n, tuning = some n → isWritable n = true) :
    Calls Grammars.compileTopic Grammars.compile {}
      (loud verbose ++ Grammars.compileTopic.name.toList :: score ::
        (given "--bpm".toList tempo ++ given "--a4".toList tuning)) verbose
      { score := some score, tempo, tuning } := by
  refine ⟨score :: (given "--bpm".toList tempo ++ given "--a4".toList tuning),
    program_read verbose (by simp [topics]) ?_, ?_⟩
  · refine List.forall_mem_cons.mpr ⟨⟨_, Grammar.sort_of_head hhead⟩, ?_⟩
    exact List.forall_mem_append.mpr
      ⟨exists_sort_given ⟨_, rfl⟩ tempo, exists_sort_given ⟨_, rfl⟩ tuning⟩
  · have htake : ∀ {operand}, Grammars.compile.operand = some operand →
        Progress.take ⟨{}, Grammars.compile.operand, []⟩ operand score [] =
          .ok ⟨{ score := some score }, none, []⟩ := by
      rintro _ ⟨⟩
      rfl
    have hread := (Grammar.Reads.plain (Grammar.Reads.given compile_takesTempo htempo
      (Grammar.Reads.given compile_takesTuning htuning (.nil _))) hhead rfl rfl
        (htake rfl)).read_eq rfl
    rw [List.append_nil] at hread
    cases tempo <;> cases tuning <;> exact hread

end Commands

end Ringtone
