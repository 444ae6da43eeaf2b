import Ringtone.Json.Printer
import Ringtone.Proofs.JsonReading

/-!
# Reading back a printed value

The reader takes a printed value from any state that waits for a value to the state where that value
has been delivered with the points of its texts joined, whatever ends a number following. The
strings, the numbers and the nesting are settled one after the other; the whole text is the case of
an empty stack and nothing following.
-/

namespace Ringtone.Json

open Number Text

variable {nesting : Value.Nesting}

/-! ## Runs over a text -/

/-- The state after the tokens of a text. -/
def run (nesting : Value.Nesting) (state : State) (text : List Char) : Except Stop State :=
  (tokens text).foldlM (step nesting) state

section Runs

variable {state : State} {rest : List Char}

theorem run_nil (state : State) : run nesting state [] = .ok state := by
  rw [run, tokens]
  rfl

theorem run_space {c : Char} (h : isSpace c = true) :
    run nesting state (c :: rest) = run nesting state rest := by
  rw [run, tokens, if_pos h, run]

theorem run_token {c : Char} {token : Token} {length : ℕ} (hspace : isSpace c = false)
    (hscan : scan c rest = (token, length)) :
    run nesting state (c :: rest) =
      step nesting state ⟨token, rest.length + 1⟩ >>=
        fun next => run nesting next (rest.drop length) := by
  rw [run, tokens, if_neg (by simp [hspace]), hscan]
  rfl

/-- A token of one character that a state takes. -/
theorem run_mark {c : Char} {token : Token} {next : State} (hspace : isSpace c = false)
    (hscan : scan c rest = (token, 0))
    (hstep : step nesting state ⟨token, rest.length + 1⟩ = .ok next) :
    run nesting state (c :: rest) = run nesting next rest := by
  rw [run_token hspace hscan, hstep]
  rfl

theorem run_blanks (count : ℕ) :
    run nesting state (List.replicate count ' ' ++ rest) = run nesting state rest := by
  induction count with
  | zero => rfl
  | succ count ih => rw [List.replicate_succ, List.cons_append, run_space rfl, ih]

theorem run_breakTo (layout : Layout) (depth : ℕ) :
    run nesting state (breakTo layout depth ++ rest) = run nesting state rest := by
  cases layout with
  | line => rfl
  | indented => rw [breakTo, List.cons_append, run_space rfl, run_blanks]

/-- A separator is a comma and blanks. -/
theorem run_separator (layout : Layout) (depth : ℕ) {next : State}
    (hstep : ∀ left, step nesting state ⟨.comma, left⟩ = .ok next) :
    run nesting state (separator layout depth ++ rest) = run nesting next rest := by
  cases layout with
  | line =>
    exact (run_mark rfl rfl (hstep _)).trans (run_space rfl)
  | indented =>
    exact (run_mark rfl rfl (hstep _)).trans (run_breakTo .indented depth)

theorem run_stringText (text : Points) :
    run nesting state (stringText text ++ rest) =
      step nesting state ⟨.string text.joined, (stringText text ++ rest).length⟩ >>= fun next =>
        run nesting next rest := by
  have hscan : scan '"' (text.flatMap pointText ++ '"' :: rest) =
      (.string text.joined, (text.flatMap pointText).length + 1) := by
    rw [scan, scanString_stringText]
  have htext : stringText text ++ rest = '"' :: (text.flatMap pointText ++ '"' :: rest) := by
    simp [stringText]
  have hdrop : (text.flatMap pointText ++ '"' :: rest).drop ((text.flatMap pointText).length + 1) =
      rest := by
    rw [List.drop_append, List.drop_eq_nil_of_le (by omega), List.nil_append,
      Nat.add_sub_cancel_left, List.drop_one, List.tail_cons]
  rw [htext, run_token rfl hscan, hdrop]
  rfl

end Runs

/-! ## Scalars -/

section Values

variable {state : State} {stack : List Frame} {rest : List Char}

theorem Awaits.run_scalar {c : Char} {more : List Char} {value : Value}
    (h : Awaits nesting state stack) (hspace : isSpace c = false)
    (hscan : scan c (more ++ rest) = (.scalar value, more.length)) :
    run nesting state (c :: more ++ rest) = run nesting (deliver stack value) rest := by
  rw [List.cons_append, run_token hspace hscan, h _ (by simp), List.drop_left]
  rfl

theorem Awaits.run_number {n : NumberText} {value : Value} (h : Awaits nesting state stack)
    (hproper : n.IsProper) (htoken : n.token = .scalar value) (hrest : EndsNumber rest) :
    run nesting state (n.text ++ rest) = run nesting (deliver stack value) rest := by
  obtain ⟨c, more, htext⟩ : ∃ c more, n.text = c :: more := by
    obtain ⟨c, more, hmore, _⟩ := hproper.beginsNumber []
    exact ⟨c, more, by rwa [List.append_nil] at hmore⟩
  have hbegins := hproper.beginsNumber rest
  have hscan := hproper.scanNumber_eq hrest
  rw [htext, List.cons_append] at hbegins hscan
  have hspace : isSpace c = false := by
    obtain ⟨_, _, heq, hc⟩ := hbegins
    rw [(List.cons.inj heq).1]
    rcases hc with hc | ⟨rfl, _⟩
    · exact not_isSpace_of_isAsciiDigit hc
    · rfl
  rw [htext]
  refine h.run_scalar hspace ?_
  rw [scan_of_begins hbegins hscan]
  exact Prod.ext htoken rfl

theorem Awaits.run_real {x : Binary64} (h : Awaits nesting state stack) (hproper : x.IsProper)
    (hrest : EndsNumber rest) :
    run nesting state (realText x ++ rest) = run nesting (deliver stack (.real x)) rest := by
  by_cases hvalue : x.toRat?.isSome
  · obtain ⟨n, hn, htext, htoken⟩ := exists_token_realText hproper hvalue
    rw [← htext]
    exact h.run_number hn htoken hrest
  · cases x with
    | finite x => exact absurd rfl hvalue
    | negativeZero => exact absurd rfl hvalue
    | nan => exact h.run_scalar rfl rfl
    | infinite negative =>
      cases negative
      · exact h.run_scalar rfl rfl
      · exact h.run_scalar rfl rfl

/-! ## Lists and objects -/

theorem Awaits.openList (h : Awaits nesting state stack) (hlevel : stack.length < nesting.levels)
    (left : ℕ) : step nesting state ⟨.openList, left⟩ = .ok (.firstItem stack) := by
  rw [h _ (by simp)]
  exact if_pos hlevel

theorem Awaits.openObject (h : Awaits nesting state stack) (hlevel : stack.length < nesting.levels)
    (left : ℕ) : step nesting state ⟨.openObject, left⟩ = .ok (.firstName stack) := by
  rw [h _ (by simp)]
  exact if_pos hlevel

theorem endsNumber_separator (layout : Layout) (depth : ℕ) (rest : List Char) :
    EndsNumber (separator layout depth ++ rest) := by
  intro c hc
  cases layout <;> cases hc <;> decide

theorem endsNumber_close {c : Char} (hc : c = ']' ∨ c = '}') (layout : Layout) (depth : ℕ)
    (rest : List Char) : EndsNumber (breakTo layout depth ++ c :: rest) := by
  intro first hfirst
  cases layout with
  | line =>
    cases hfirst
    rcases hc with rfl | rfl <;> decide
  | indented =>
    cases hfirst
    decide

/-- The text of further items and the bracket behind them does not go on with a number. -/
theorem endsNumber_items (layout : Layout) (depth below : ℕ) (items : List Value)
    (rest : List Char) :
    EndsNumber (printItems layout depth items ++ (breakTo layout below ++ ']' :: rest)) := by
  cases items with
  | nil => exact endsNumber_close (Or.inl rfl) layout below rest
  | cons item more =>
    rw [printItems, List.append_assoc, List.append_assoc]
    exact endsNumber_separator layout depth _

theorem endsNumber_members (layout : Layout) (depth below : ℕ) (members : Members)
    (rest : List Char) :
    EndsNumber (printMembers layout depth members ++ (breakTo layout below ++ '}' :: rest)) := by
  cases members with
  | nil => exact endsNumber_close (Or.inr rfl) layout below rest
  | cons member more =>
    obtain ⟨name, value⟩ := member
    rw [printMembers]
    simp only [List.append_assoc]
    exact endsNumber_separator layout depth _

/-- A value is read back where it is due, with its points joined. -/
def ReadsBack (nesting : Value.Nesting) (layout : Layout) (level : ℕ) (value : Value) : Prop :=
  ∀ (depth : ℕ) (state : State) (stack : List Frame) (rest : List Char), stack.length = level →
    Awaits nesting state stack → EndsNumber rest →
    run nesting state (print layout depth value ++ rest) =
      run nesting (deliver stack value.joined) rest

/-- Further items and the closing bracket complete a list. -/
theorem run_printItems {layout : Layout} {more : List Value}
    (hmore : ∀ item ∈ more, ReadsBack nesting layout (stack.length + 1) item) (depth below : ℕ)
    (items : List Value) :
    run nesting (.afterItem stack items)
        (printItems layout depth more ++ (breakTo layout below ++ ']' :: rest)) =
      run nesting (deliver stack (.list (items.reverse ++ Value.joinedItems more))) rest := by
  induction more generalizing items with
  | nil =>
    rw [printItems, List.nil_append, run_breakTo, run_mark rfl rfl rfl, Value.joinedItems,
      List.append_nil]
  | cons item more ih =>
    rw [List.forall_mem_cons] at hmore
    rw [printItems, List.append_assoc, List.append_assoc, run_separator layout depth fun _ => rfl,
      hmore.1 depth _ _ _ rfl (awaits_value _) (endsNumber_items layout depth below more rest)]
    exact (ih hmore.2 _).trans (by rw [List.reverse_cons, List.append_assoc, List.singleton_append,
      Value.joinedItems])

theorem run_name (hstep : ∀ left name, step nesting state ⟨.string name, left⟩ =
      .ok (.colon stack members name)) (name : Points) :
    run nesting state (stringText name ++ [':', ' '] ++ rest) =
      run nesting (.value (.object members name.joined :: stack)) rest := by
  rw [List.append_assoc, run_stringText, hstep]
  exact (run_mark rfl rfl rfl).trans (run_space rfl)

/-- Further members are set one after the other, and the closing bracket completes the object. -/
theorem run_printMembers {layout : Layout} {more : Members}
    (hmore : ∀ member ∈ more, ReadsBack nesting layout (stack.length + 1) member.2)
    (depth below : ℕ) (members : Members) :
    run nesting (.afterMember stack members)
        (printMembers layout depth more ++ (breakTo layout below ++ '}' :: rest)) =
      run nesting (deliver stack (.object (members.overlay (Value.joinedMembers more)))) rest := by
  induction more generalizing members with
  | nil =>
    rw [printMembers, List.nil_append, run_breakTo, run_mark rfl rfl rfl]
    rfl
  | cons member more ih =>
    obtain ⟨name, value⟩ := member
    rw [List.forall_mem_cons] at hmore
    rw [printMembers]
    simp only [List.append_assoc]
    rw [run_separator layout depth fun _ => rfl, ← List.append_assoc (stringText name),
      run_name (fun _ _ => rfl) name,
      hmore.1 depth _ _ _ rfl (awaits_value _) (endsNumber_members layout depth below more rest)]
    exact ih hmore.2 (members.set name.joined value.joined)

end Values

/-- A value that can be saved is read back from what is printed for it. -/
theorem IsSavable.readsBack {level : ℕ} {value : Value} (h : IsSavable nesting level value)
    (layout : Layout) : ReadsBack nesting layout level value := by
  -- the state, the stack and what follows stay general: the items are read in states of their own
  induction h with
  | null => exact fun _ _ _ _ _ h _ => h.run_scalar rfl rfl
  | bool b => cases b <;> exact fun _ _ _ _ _ h _ => h.run_scalar rfl rfl
  | @int level n hn =>
    intro depth state stack rest _ hstate hrest
    rw [print, ← text_wholeText]
    exact hstate.run_number (isProper_wholeText n) (token_wholeText hn 0) hrest
  | real hx => exact fun _ _ _ _ _ h hrest => h.run_real hx hrest
  | text s =>
    intro depth state stack rest _ hstate _
    rw [print, run_stringText, hstate _ (by simp)]
    rfl
  | @list level items hlevel hitems ih =>
    rintro depth state stack rest rfl hstate hrest
    cases items with
    | nil =>
      rw [print, List.cons_append, run_mark rfl rfl (hstate.openList hlevel _)]
      exact run_mark rfl rfl rfl
    | cons item more =>
      rw [List.forall_mem_cons] at ih
      rw [print, List.cons_append, run_mark rfl rfl (hstate.openList hlevel _)]
      simp only [List.append_assoc, List.singleton_append]
      rw [run_breakTo, ih.1 _ _ _ _ rfl (awaits_firstItem stack) (endsNumber_items _ _ _ _ _)]
      exact run_printItems ih.2 _ _ [item.joined]
  | @object level members hlevel hmembers ih =>
    rintro depth state stack rest rfl hstate hrest
    cases members with
    | nil =>
      rw [print, List.cons_append, run_mark rfl rfl (hstate.openObject hlevel _)]
      exact run_mark rfl rfl rfl
    | cons member more =>
      obtain ⟨name, value⟩ := member
      rw [List.forall_mem_cons] at ih
      rw [print, List.cons_append, run_mark rfl rfl (hstate.openObject hlevel _)]
      simp only [List.append_assoc, List.singleton_append]
      rw [run_breakTo, ← List.append_assoc (stringText name), run_name (fun _ _ => rfl) name,
        ih.1 _ _ _ _ rfl (awaits_value _) (endsNumber_members _ _ _ _ _)]
      exact run_printMembers ih.2 _ _ [(name.joined, value.joined)]

/-! ## The text -/

/-- A line feed or a printable character of ASCII. -/
def IsPlain (c : Char) : Prop := c = '\n' ∨ 0x20 ≤ c.toNat ∧ c.toNat < 0x7F

instance (c : Char) : Decidable (IsPlain c) := inferInstanceAs (Decidable (_ ∨ _))

/-- Every character of a text is plain. -/
def PlainText (text : List Char) : Prop := ∀ c ∈ text, IsPlain c

instance (text : List Char) : Decidable (PlainText text) := List.decidableBAll IsPlain text

section Plain

variable {a b : List Char}

theorem PlainText.append (ha : PlainText a) (hb : PlainText b) : PlainText (a ++ b) :=
  fun c hc => (List.mem_append.mp hc).elim (ha c) (hb c)

theorem PlainText.cons {c : Char} (hc : IsPlain c) (hb : PlainText b) : PlainText (c :: b) :=
  List.forall_mem_cons.mpr ⟨hc, hb⟩

theorem plainText_nil : PlainText [] := List.forall_mem_nil _

theorem plainText_digits {digits : List Char} (h : ∀ c ∈ digits, isAsciiDigit c) :
    PlainText digits := by
  intro c hc
  have hdigit := h c hc
  simp only [isAsciiDigit, Bool.and_eq_true, decide_eq_true_eq, Char.le_def,
    UInt32.le_iff_toNat_le] at hdigit
  change 48 ≤ c.toNat ∧ c.toNat ≤ 57 at hdigit
  exact Or.inr (by omega)

theorem plainText_hexDigits (width n : ℕ) : PlainText (hexDigits width n) := by
  have hdigit : ∀ d < 16, IsPlain (Nat.digitChar d) := by decide
  induction width generalizing n with
  | zero => exact plainText_nil
  | succ width ih =>
    exact (ih _).append (.cons (hdigit _ (Nat.mod_lt _ (by norm_num))) plainText_nil)

theorem plainText_numbered (n : ℕ) : PlainText (numbered n) :=
  .cons (by decide) (.cons (by decide) (plainText_hexDigits _ _))

theorem plainText_pointText (point : Point) : PlainText (pointText point) := by
  simp only [pointText]
  split_ifs with h1 h2 h3 h4 h5 h6 h7 h8 h9
  iterate 7 decide
  · refine .cons (Or.inr ?_) plainText_nil
    have hchar : (Char.ofNat point.val).toNat = point.val :=
      congrArg Fin.val (@Point.ofChar_ofNat point (Or.inl (by omega)))
    omega
  · exact plainText_numbered _
  · exact (plainText_numbered _).append (plainText_numbered _)

theorem plainText_stringText (text : Points) : PlainText (stringText text) := by
  refine .cons (by decide) (.append ?_ (.cons (by decide) plainText_nil))
  intro c hc
  obtain ⟨point, _, hpoint⟩ := List.mem_flatMap.mp hc
  exact plainText_pointText point c hpoint

theorem NumberText.IsProper.plainText {n : NumberText} (h : n.IsProper) : PlainText n.text := by
  have hplaces := plainText_digits h.places_digits
  have hexponent : PlainText (exponentPart n.exponent) := by
    cases hsome : n.exponent with
    | none => exact plainText_nil
    | some e =>
      obtain ⟨negative, digits⟩ := e
      refine .cons (by decide) (.cons ?_ (plainText_digits (h.exponent_digits _ hsome).2))
      cases negative <;> decide
  have hpoint : PlainText (placesPart n.places) := by
    cases hcons : n.places with
    | nil => exact plainText_nil
    | cons c places =>
      rw [hcons] at hplaces
      exact .cons (by decide) hplaces
  refine PlainText.append ?_ ((plainText_digits h.whole_digits).append (hpoint.append hexponent))
  split_ifs
  · decide
  · exact plainText_nil

theorem plainText_realText {x : Binary64} (h : x.IsProper) : PlainText (realText x) := by
  by_cases hvalue : x.toRat?.isSome
  · obtain ⟨n, hn, htext, _⟩ := exists_token_realText h hvalue
    exact htext ▸ hn.plainText
  · cases x with
    | finite x => exact absurd rfl hvalue
    | negativeZero => exact absurd rfl hvalue
    | nan => decide
    | infinite negative => cases negative <;> decide

theorem plainText_breakTo (layout : Layout) (depth : ℕ) : PlainText (breakTo layout depth) := by
  cases layout with
  | line => exact plainText_nil
  | indented =>
    refine .cons (by decide) fun c hc => ?_
    rw [List.eq_of_mem_replicate hc]
    decide

theorem plainText_separator (layout : Layout) (depth : ℕ) :
    PlainText (separator layout depth) := by
  cases layout with
  | line => exact (by decide : PlainText [',', ' '])
  | indented => exact .cons (by decide) (plainText_breakTo .indented depth)

theorem plainText_printItems {layout : Layout} {depth : ℕ} {items : List Value}
    (h : ∀ item ∈ items, PlainText (print layout depth item)) :
    PlainText (printItems layout depth items) := by
  induction items with
  | nil => exact plainText_nil
  | cons item more ih =>
    rw [List.forall_mem_cons] at h
    exact ((plainText_separator layout depth).append h.1).append (ih h.2)

theorem plainText_printMembers {layout : Layout} {depth : ℕ} {members : Members}
    (h : ∀ member ∈ members, PlainText (print layout depth member.2)) :
    PlainText (printMembers layout depth members) := by
  induction members with
  | nil => exact plainText_nil
  | cons member more ih =>
    obtain ⟨name, value⟩ := member
    rw [List.forall_mem_cons] at h
    exact ((((plainText_separator layout depth).append (plainText_stringText name)).append
      (by decide)).append h.1).append (ih h.2)

end Plain

/-- What is printed for a value that can be saved is plain. -/
theorem IsSavable.plainText {level : ℕ} {value : Value} (h : IsSavable nesting level value)
    (layout : Layout) (depth : ℕ) : PlainText (print layout depth value) := by
  induction h generalizing depth with
  | null => exact (by decide : PlainText "null".toList)
  | bool b => cases b <;> simp only [print] <;> decide
  | @int level n hn =>
    rw [print, ← text_wholeText]
    exact (isProper_wholeText n).plainText
  | real hx => exact plainText_realText hx
  | text _ => exact plainText_stringText _
  | @list level items hlevel hitems ih =>
    cases items with
    | nil => exact .cons (by decide) (.cons (by decide) plainText_nil)
    | cons item more =>
      rw [List.forall_mem_cons] at ih
      rw [print]
      exact .cons (by decide) (((((plainText_breakTo _ _).append (ih.1 _)).append
        (plainText_printItems fun item hitem => ih.2 item hitem _)).append
        (plainText_breakTo _ _)).append (by decide))
  | @object level members hlevel hmembers ih =>
    cases members with
    | nil => exact .cons (by decide) (.cons (by decide) plainText_nil)
    | cons member more =>
      obtain ⟨name, value⟩ := member
      rw [List.forall_mem_cons] at ih
      rw [print]
      exact .cons (by decide) (((((((plainText_breakTo _ _).append
        (plainText_stringText name)).append (by decide)).append (ih.1 _)).append
        (plainText_printMembers fun member hmember => ih.2 member hmember _)).append
        (plainText_breakTo _ _)).append (by decide))

theorem run_spaces {state : State} {blanks : List Char} (h : ∀ c ∈ blanks, isSpace c = true) :
    run nesting state blanks = .ok state := by
  induction blanks with
  | nil => exact run_nil state
  | cons c rest ih =>
    rw [run_space (h c List.mem_cons_self)]
    exact ih fun other hother => h other (List.mem_cons_of_mem _ hother)

theorem endsNumber_spaces {blanks : List Char} (h : ∀ c ∈ blanks, isSpace c = true) :
    EndsNumber blanks := by
  intro c hc
  have hspace := h c (List.mem_of_head? hc)
  simp only [isSpace, Bool.or_eq_true, decide_eq_true_eq] at hspace
  rcases hspace with ((rfl | rfl) | rfl) | rfl <;> decide

/-- What is printed for a value that can be saved has that value with its points joined, also with
blanks behind it. -/
theorem IsSavable.read_print_append {value : Value} (h : IsSavable nesting 0 value)
    (layout : Layout) (depth : ℕ) {blanks : List Char}
    (hblanks : ∀ c ∈ blanks, isSpace c = true) :
    readWithin nesting (print layout depth value ++ blanks) = .ok value.joined := by
  have hhead : (print layout depth value ++ blanks).head? ≠ some '\uFEFF' := by
    intro hhead
    rcases List.mem_append.mp (List.mem_of_head? hhead) with hmem | hmem
    · exact absurd (h.plainText layout depth _ hmem) (by decide)
    · exact absurd (hblanks _ hmem) (by decide)
  have hrun := h.readsBack layout depth (.value []) [] blanks rfl (awaits_value [])
    (endsNumber_spaces hblanks)
  rw [run_spaces hblanks] at hrun
  unfold run at hrun
  rw [readWithin, if_neg hhead, readTokens, hrun]
  rfl

theorem IsSavable.read_print {value : Value} (h : IsSavable nesting 0 value) (layout : Layout)
    (depth : ℕ) : readWithin nesting (print layout depth value) = .ok value.joined := by
  rw [← List.append_nil (print layout depth value)]
  exact h.read_print_append layout depth (List.forall_mem_nil _)

/-- A value that a text can give comes back as it is. -/
theorem IsReadable.read_print_append {value : Value} (h : IsReadable nesting 0 value)
    (layout : Layout) (depth : ℕ) {blanks : List Char}
    (hblanks : ∀ c ∈ blanks, isSpace c = true) :
    readWithin nesting (print layout depth value ++ blanks) = .ok value := by
  rw [h.isSavable.read_print_append layout depth hblanks, h.joined_eq]

theorem IsReadable.read_print {value : Value} (h : IsReadable nesting 0 value) (layout : Layout)
    (depth : ℕ) : readWithin nesting (print layout depth value) = .ok value := by
  rw [h.isSavable.read_print, h.joined_eq]

end Ringtone.Json
