import Ringtone.Json.Reader
import Ringtone.Proofs.JsonNumbers
import Ringtone.Proofs.JsonStrings
import Ringtone.Proofs.Members
import Ringtone.Proofs.Traversal

/-!
# What a JSON text can give

A value comes out of a text only if it can be written back: no whole number has too many digits, the
binary64 numbers are of the format, no text has two code points that join, the names of an object
are distinct, and lists and objects are nested no deeper than the reader goes. The reader keeps this
of everything on its stack.
-/

namespace Ringtone.Json

open Number Text

/-- A value that a text can give where `level` lists and objects are open around it. -/
inductive IsReadable (nesting : Value.Nesting) : ℕ → Value → Prop
  | null {level : ℕ} : IsReadable nesting level .null
  | bool {level : ℕ} (b : Bool) : IsReadable nesting level (.bool b)
  | int {level : ℕ} {n : ℤ} : isWritable n = true → IsReadable nesting level (.int n)
  | real {level : ℕ} {x : Binary64} : x.IsProper → IsReadable nesting level (.real x)
  | text {level : ℕ} {s : Points} : s.IsJoined → IsReadable nesting level (.text s)
  | list {level : ℕ} {items : List Value} : level < nesting.levels →
      (∀ item ∈ items, IsReadable nesting (level + 1) item) → IsReadable nesting level (.list items)
  | object {level : ℕ} {members : Members} : level < nesting.levels →
      (∀ member ∈ members, member.1.IsJoined) → (members.map Prod.fst).Nodup →
      (∀ member ∈ members, IsReadable nesting (level + 1) member.2) →
      IsReadable nesting level (.object members)

/-- A value that can be written and read where `level` lists and objects are open around it: a value
that a text can give, but for points that join in its texts and for names that are given twice. -/
inductive IsSavable (nesting : Value.Nesting) : ℕ → Value → Prop
  | null {level : ℕ} : IsSavable nesting level .null
  | bool {level : ℕ} (b : Bool) : IsSavable nesting level (.bool b)
  | int {level : ℕ} {n : ℤ} : isWritable n = true → IsSavable nesting level (.int n)
  | real {level : ℕ} {x : Binary64} : x.IsProper → IsSavable nesting level (.real x)
  | text {level : ℕ} (s : Points) : IsSavable nesting level (.text s)
  | list {level : ℕ} {items : List Value} : level < nesting.levels →
      (∀ item ∈ items, IsSavable nesting (level + 1) item) → IsSavable nesting level (.list items)
  | object {level : ℕ} {members : Members} : level < nesting.levels →
      (∀ member ∈ members, IsSavable nesting (level + 1) member.2) →
      IsSavable nesting level (.object members)

variable {nesting : Value.Nesting}

theorem IsReadable.isSavable {level : ℕ} {value : Value} (h : IsReadable nesting level value) :
    IsSavable nesting level value := by
  induction h with
  | null => exact .null
  | bool b => exact .bool b
  | int hn => exact .int hn
  | real hx => exact .real hx
  | text _ => exact .text _
  | list hlevel _ ih => exact .list hlevel ih
  | object hlevel _ _ _ ih => exact .object hlevel ih

/-- What a text can give has no points that join. -/
theorem IsReadable.joined_eq {level : ℕ} {value : Value} (h : IsReadable nesting level value) :
    value.joined = value := by
  induction h with
  | text hs => rw [Value.joined, Points.joined_eq_self hs]
  | list _ _ ih => rw [Value.joined, Value.joinedItems_eq_map, List.map_congr_left ih, List.map_id']
  | @object level members _ hjoined hnames _ ih =>
    have hsame : ∀ member ∈ members, (member.1.joined, member.2.joined) = member :=
      fun member hmember => Prod.ext (Points.joined_eq_self (hjoined member hmember))
        (ih member hmember)
    rw [Value.joined, Value.joinedMembers_eq_map, List.map_congr_left hsame, List.map_id',
      Members.overlay_nil hnames]
  | _ => rfl

/-- What can be written can be read once its points are joined. -/
theorem IsSavable.isReadable_joined {level : ℕ} {value : Value}
    (h : IsSavable nesting level value) : IsReadable nesting level value.joined := by
  induction h with
  | null => exact .null
  | bool b => exact .bool b
  | int hn => exact .int hn
  | real hx => exact .real hx
  | text s => exact .text (isJoined_joined s)
  | list hlevel _ ih =>
    rw [Value.joined, Value.joinedItems_eq_map]
    exact .list hlevel (List.forall_mem_map.mpr ih)
  | object hlevel _ ih =>
    rw [Value.joined, Value.joinedMembers_eq_map]
    have hnil : (([] : Members).map Prod.fst).Nodup := List.nodup_nil
    refine .object hlevel (fun member hmember => ?_) (Members.nodup_overlay hnil _)
      fun member hmember => ?_
    all_goals
      have hmem := (Members.mem_overlay hmember).resolve_left List.not_mem_nil
      obtain ⟨given, hgiven, rfl⟩ := List.mem_map.mp hmem
    · exact isJoined_joined given.1
    · exact ih given hgiven

/-! ## Tokens -/

/-- The scalar or the string of a token can be written back. -/
def Token.IsReadable : Token → Prop
  | .scalar value => ∀ nesting level, Json.IsReadable nesting level value
  | .string text => text.IsJoined
  | _ => True

theorem isReadable_word : ∀ p ∈ words, ∀ nesting level, IsReadable nesting level p.2 := by
  simp only [words, List.forall_mem_cons]
  exact ⟨fun _ _ => .null, fun _ _ => .bool _, fun _ _ => .bool _, fun _ _ => .real trivial,
    fun _ _ => .real trivial, fun _ _ => .real trivial, List.forall_mem_nil _⟩

theorem whole_digits_of_scanUnsigned {text : List Char} {n : NumberText}
    (h : scanUnsigned text = some n) : ∀ c ∈ n.whole, isAsciiDigit c := by
  cases text with
  | nil => simp [scanUnsigned] at h
  | cons first more =>
    rw [scanUnsigned_eq_numberAfter, numberAfter] at h
    split_ifs at h with hzero hempty hempty
    · cases h
      exact fun c hc => by rw [List.mem_singleton.mp hc]; decide
    · cases h
      exact fun c hc => List.all_eq_true.mp List.all_takeWhile c hc

theorem whole_digits_of_scanNumber {text : List Char} {n : NumberText}
    (h : scanNumber text = some n) : ∀ c ∈ n.whole, isAsciiDigit c := by
  unfold scanNumber at h
  split at h
  · obtain ⟨m, hm, rfl⟩ := Option.map_eq_some_iff.mp h
    exact whole_digits_of_scanUnsigned (n := m) hm
  · exact whole_digits_of_scanUnsigned h

theorem isReadable_token_number {n : NumberText} (h : ∀ c ∈ n.whole, isAsciiDigit c) :
    n.token.IsReadable := by
  have hpow : ∀ k, Nat.pow 10 k = 10 ^ k := fun _ => rfl
  unfold NumberText.token
  split_ifs with hwhole hlong hsign
  · trivial
  iterate 2
    have hless := ofDecimalDigits_lt h
    have hpower := Nat.pow_le_pow_right (show 0 < 10 by norm_num) (not_lt.mp hlong)
    refine fun nesting level => .int ?_
    rw [isWritable, decide_eq_true_eq, hpow]
    omega
  · exact fun nesting level => .real (Decimal.isProper_toBinary64 _)

theorem isJoined_of_scanString {start : ℕ} {rest : List Char} {text : Points} {length : ℕ}
    (h : scanString start rest = .ok (text, length)) : text.IsJoined := by
  obtain ⟨⟨pieces, count⟩, -, hpieces⟩ := map_eq_ok_iff.mp h
  cases hpieces
  exact isJoined_joinPieces pieces

theorem isReadable_scan (first : Char) (rest : List Char) : (scan first rest).1.IsReadable := by
  unfold scan
  split
  iterate 6 trivial
  · split
    · rename_i heq
      exact isJoined_of_scanString heq
    · trivial
  · split
    · rename_i heq
      exact isReadable_word _ (List.mem_of_find?_eq_some heq)
    · split
      · rename_i heq
        exact isReadable_token_number (whole_digits_of_scanNumber heq)
      · trivial

theorem isReadable_tokens (text : List Char) : ∀ placed ∈ tokens text, placed.token.IsReadable := by
  induction text using tokens.induct with
  | case1 => simp [tokens]
  | case2 c rest hspace ih => rwa [tokens, if_pos hspace]
  | case3 c rest hspace token length hscan ih =>
    rw [tokens, if_neg hspace, hscan]
    intro placed hplaced
    rcases List.mem_cons.mp hplaced with rfl | hplaced
    · have := isReadable_scan c rest
      rwa [hscan] at this
    · exact ih placed hplaced

/-! ## The reader's states -/

/-- The lists and objects that are open are nested within the limit, and what they hold so far can
be written back. -/
inductive StackReadable (nesting : Value.Nesting) : List Frame → Prop
  | nil : StackReadable nesting []
  | list {items : List Value} {rest : List Frame} : rest.length < nesting.levels →
      (∀ item ∈ items, IsReadable nesting (rest.length + 1) item) → StackReadable nesting rest →
      StackReadable nesting (.list items :: rest)
  | object {members : Members} {name : Points} {rest : List Frame} :
      rest.length < nesting.levels → name.IsJoined → (∀ member ∈ members, member.1.IsJoined) →
      (members.map Prod.fst).Nodup →
      (∀ member ∈ members, IsReadable nesting (rest.length + 1) member.2) →
      StackReadable nesting rest → StackReadable nesting (.object members name :: rest)

/-- What a state holds can be written back. -/
def State.IsReadable (nesting : Value.Nesting) : State → Prop
  | .value stack => StackReadable nesting stack
  | .firstItem stack => StackReadable nesting (.list [] :: stack)
  | .firstName stack => StackReadable nesting (.object [] [] :: stack)
  | .name stack members => StackReadable nesting (.object members [] :: stack)
  | .colon stack members due => StackReadable nesting (.object members due :: stack)
  | .afterItem stack items => StackReadable nesting (.list items :: stack)
  | .afterMember stack members => StackReadable nesting (.object members [] :: stack)
  | .finished result => Json.IsReadable nesting 0 result

theorem StackReadable.rename {stack : List Frame} {members : Members} {name other : Points}
    (h : StackReadable nesting (.object members name :: stack)) (hother : other.IsJoined) :
    StackReadable nesting (.object members other :: stack) := by
  cases h with
  | object hlevel _ hjoined hnames hmembers hrest =>
    exact .object hlevel hother hjoined hnames hmembers hrest

theorem isReadable_deliver {stack : List Frame} {value : Value}
    (hstack : StackReadable nesting stack) (hvalue : IsReadable nesting stack.length value) :
    (deliver stack value).IsReadable nesting := by
  cases hstack with
  | nil => exact hvalue
  | list hlevel hitems hrest =>
    refine .list hlevel ?_ hrest
    rw [List.forall_mem_cons]
    exact ⟨hvalue, hitems⟩
  | object hlevel hname hjoined hnames hmembers hrest =>
    refine .object hlevel Points.isJoined_nil ?_ (Members.nodup_set hnames _ _) ?_ hrest
    · intro member hmember
      rcases Members.mem_set hmember with hmember | rfl
      · exact hjoined member hmember
      · exact hname
    · intro member hmember
      rcases Members.mem_set hmember with hmember | rfl
      · exact hmembers member hmember
      · exact hvalue

theorem isReadable_takeValue {stack : List Frame} {placed : Placed} {state : State}
    (hstack : StackReadable nesting stack) (htoken : placed.token.IsReadable)
    (h : takeValue nesting stack placed = .ok state) : state.IsReadable nesting := by
  unfold takeValue openWithin at h
  split at h
  · rename_i value heq
    rw [heq] at htoken
    cases h
    exact isReadable_deliver hstack (htoken _ _)
  · rename_i text heq
    rw [heq] at htoken
    cases h
    exact isReadable_deliver hstack (.text htoken)
  · split_ifs at h with hlevel
    cases h
    exact .list hlevel (by simp) hstack
  · split_ifs at h with hlevel
    cases h
    exact .object hlevel Points.isJoined_nil (by simp) List.nodup_nil (by simp) hstack
  all_goals cases h

theorem isReadable_takeName {stack : List Frame} {members : Members} {placed : Placed}
    {state : State} (hstack : StackReadable nesting (.object members [] :: stack))
    (htoken : placed.token.IsReadable) (h : takeName stack members placed = .ok state) :
    state.IsReadable nesting := by
  unfold takeName at h
  split at h
  · rename_i name heq
    rw [heq] at htoken
    cases h
    exact hstack.rename htoken
  all_goals cases h

/-- A step keeps what can be written back. -/
theorem State.IsReadable.step {state next : State} {placed : Placed}
    (hstate : state.IsReadable nesting) (htoken : placed.token.IsReadable)
    (h : Json.step nesting state placed = .ok next) : next.IsReadable nesting := by
  unfold Json.step at h
  split at h
  · exact isReadable_takeValue hstate htoken h
  · cases h
    cases hstate with
    | list hlevel _ hrest => exact isReadable_deliver hrest (.list hlevel (by simp))
  · exact isReadable_takeValue hstate htoken h
  · cases h
    cases hstate with
    | object hlevel _ _ _ _ hrest =>
      exact isReadable_deliver hrest (.object hlevel (by simp) List.nodup_nil (by simp))
  · exact isReadable_takeName hstate htoken h
  · exact isReadable_takeName hstate htoken h
  · cases h
    exact hstate
  · cases h
  · cases h
    cases hstate with
    | list hlevel hitems hrest =>
      exact isReadable_deliver hrest (.list hlevel fun item hitem =>
        hitems item (List.mem_reverse.mp hitem))
  · cases h
    exact hstate
  · cases h
  · cases h
    cases hstate with
    | object hlevel _ hjoined hnames hmembers hrest =>
      exact isReadable_deliver hrest (.object hlevel hjoined hnames hmembers)
  · cases h
    exact hstate
  · cases h
  · cases h

/-- A run over readable tokens keeps what can be written back. -/
theorem State.IsReadable.run {tokens : List Placed} {state last : State}
    (hstate : state.IsReadable nesting) (htokens : ∀ placed ∈ tokens, placed.token.IsReadable)
    (h : tokens.foldlM (Json.step nesting) state = .ok last) : last.IsReadable nesting := by
  induction tokens generalizing state with
  | nil =>
    cases h
    exact hstate
  | cons placed rest ih =>
    rw [List.forall_mem_cons] at htokens
    rw [List.foldlM_cons] at h
    cases hstep : Json.step nesting state placed with
    | error stop =>
      rw [hstep] at h
      cases h
    | ok next =>
      rw [hstep] at h
      exact ih (hstate.step htokens.1 hstep) htokens.2 h

/-- The value of a text can be written back. -/
theorem isReadable_of_read {text : List Char} {value : Value}
    (h : readWithin nesting text = .ok value) : IsReadable nesting 0 value := by
  unfold readWithin readTokens at h
  split_ifs at h
  cases hrun : (tokens text).foldlM (step nesting) (.value []) with
  | error stop =>
    rw [hrun] at h
    cases h
  | ok last =>
    have hfirst : (State.value []).IsReadable nesting := StackReadable.nil
    have hlast := hfirst.run (isReadable_tokens text) hrun
    rw [hrun] at h
    cases last with
    | finished result =>
      cases h
      exact hlast
    | _ => cases h

/-! ## Where reading stops -/

/-- A state where a value is due, to be delivered to the stack. -/
def Awaits (nesting : Value.Nesting) (state : State) (stack : List Frame) : Prop :=
  ∀ placed : Placed, placed.token ≠ .closeList →
    step nesting state placed = takeValue nesting stack placed

theorem awaits_value (stack : List Frame) : Awaits nesting (.value stack) stack := fun _ _ => rfl

theorem awaits_firstItem (stack : List Frame) :
    Awaits nesting (.firstItem stack) (.list [] :: stack) := by
  intro placed hplaced
  unfold step
  split <;> simp_all

/-- The reading of a text comes to a token in a state. -/
def Reaches (nesting : Value.Nesting) (text : List Char) (state : State) (placed : Placed) :
    Prop :=
  text.head? ≠ some '\uFEFF' ∧ ∃ before after, tokens text = before ++ placed :: after ∧
    before.foldlM (step nesting) (.value []) = .ok state

/-- A run over tokens stops at the first one that does not belong where it stands. -/
theorem foldlM_step_eq_error_iff {tokens : List Placed} {state : State} {stop : Stop} :
    tokens.foldlM (step nesting) state = .error stop ↔ ∃ before placed after reached,
      tokens = before ++ placed :: after ∧ before.foldlM (step nesting) state = .ok reached ∧
      step nesting reached placed = .error stop := by
  induction tokens generalizing state with
  | nil => simp [pure, Except.pure]
  | cons first rest ih =>
    rw [List.foldlM_cons]
    constructor
    · intro h
      cases hstep : step nesting state first with
      | error other =>
        rw [hstep] at h
        cases h
        exact ⟨[], first, rest, state, rfl, rfl, hstep⟩
      | ok next =>
        rw [hstep] at h
        obtain ⟨before, placed, after, reached, rfl, hbefore, hstop⟩ := ih.mp h
        exact ⟨first :: before, placed, after, reached, rfl,
          by rw [List.foldlM_cons, hstep]; exact hbefore, hstop⟩
    · rintro ⟨before, placed, after, reached, hsplit, hbefore, hstop⟩
      cases before with
      | nil =>
        cases hsplit
        cases hbefore
        rw [hstop]
        rfl
      | cons _ before =>
        cases hsplit
        rw [List.foldlM_cons] at hbefore
        cases hstep : step nesting state first with
        | error other =>
          rw [hstep] at hbefore
          cases hbefore
        | ok next =>
          rw [hstep] at hbefore
          exact ih.mpr ⟨before, placed, after, reached, rfl, hbefore, hstop⟩

/-- Only where a value is due can a stop be other than a broken text. -/
theorem exists_awaits_of_stop {state : State} {placed : Placed} {stop : Stop}
    (h : step nesting state placed = .error stop) (hstop : ∀ fault, stop ≠ .broken fault) :
    ∃ stack, Awaits nesting state stack ∧ takeValue nesting stack placed = .error stop := by
  -- where a name or a mark is due, every other token breaks the text
  have hname : ∀ stack members, takeName stack members placed ≠ .error stop := by
    intro stack members hname
    unfold takeName at hname
    split at hname <;> cases hname <;> exact hstop _ rfl
  unfold step at h
  split at h
  · exact ⟨_, awaits_value _, h⟩
  · cases h
  · exact ⟨_, awaits_firstItem _, h⟩
  · cases h
  · exact absurd h (hname _ _)
  · exact absurd h (hname _ _)
  all_goals cases h <;> exact absurd rfl (hstop _)

theorem openWithin_eq_error_iff {stack : List Frame} {opened : State} {stop : Stop} :
    openWithin nesting stack opened = .error stop ↔
      stop = .nesting ∧ nesting.levels ≤ stack.length := by
  unfold openWithin
  split_ifs with hlevel
  · simp [hlevel]
  · simp only [Except.error.injEq, not_lt.mp hlevel, and_true, eq_comm]

theorem takeValue_eq_longNumeral_iff {stack : List Frame} {placed : Placed} {digits : ℕ} :
    takeValue nesting stack placed = .error (.longNumeral digits) ↔
      placed.token = .longNumeral digits := by
  obtain ⟨token, left⟩ := placed
  cases token <;> simp [takeValue, openWithin_eq_error_iff]

theorem takeValue_eq_nesting_iff {stack : List Frame} {placed : Placed} :
    takeValue nesting stack placed = .error .nesting ↔ nesting.levels ≤ stack.length ∧
      (placed.token = .openList ∨ placed.token = .openObject) := by
  obtain ⟨token, left⟩ := placed
  cases token <;> simp [takeValue, openWithin_eq_error_iff]

theorem finish_eq_error {state : State} {stop : Stop} (h : finish state = .error stop) :
    ∃ fault, stop = .broken fault := by
  cases state <;> cases h <;> exact ⟨_, rfl⟩

/-- A text is refused for another reason than that it is broken where it comes to a token that
cannot be taken for a value. -/
theorem readTokens_eq_error_iff {tokens : List Placed} {stop : Stop}
    (hstop : ∀ fault, stop ≠ .broken fault) :
    readTokens nesting tokens = .error stop ↔ ∃ before placed after state stack,
      tokens = before ++ placed :: after ∧ before.foldlM (step nesting) (.value []) = .ok state ∧
      Awaits nesting state stack ∧ takeValue nesting stack placed = .error stop := by
  rw [readTokens]
  constructor
  · intro h
    cases hrun : tokens.foldlM (step nesting) (.value []) with
    | ok last =>
      rw [hrun] at h
      obtain ⟨fault, hfault⟩ := finish_eq_error h
      exact absurd hfault (hstop fault)
    | error other =>
      rw [hrun] at h
      cases h
      obtain ⟨before, placed, after, state, hsplit, hbefore, hstep⟩ :=
        foldlM_step_eq_error_iff.mp hrun
      obtain ⟨stack, hawaits, htake⟩ := exists_awaits_of_stop hstep hstop
      exact ⟨before, placed, after, state, stack, hsplit, hbefore, hawaits, htake⟩
  · rintro ⟨before, placed, after, state, stack, hsplit, hbefore, hawaits, htake⟩
    -- a closing bracket is no value, but may come where a first item is due
    have hclose : placed.token ≠ .closeList := by
      intro hclose
      rw [takeValue, hclose] at htake
      cases htake
      exact hstop _ rfl
    have hrun := foldlM_step_eq_error_iff.mpr
      ⟨before, placed, after, state, hsplit, hbefore, (hawaits placed hclose).trans htake⟩
    rw [hrun]
    rfl

theorem read_eq_error_iff {text : List Char} {stop : Stop} (hstop : ∀ fault, stop ≠ .broken fault) :
    readWithin nesting text = .error (stop.fault text.length) ↔
      text.head? ≠ some '\uFEFF' ∧ readTokens nesting (tokens text) = .error stop := by
  rw [readWithin]
  split_ifs with hmark
  · cases stop with
    | broken fault => exact absurd rfl (hstop fault)
    | _ => simp [Stop.fault, hmark]
  · cases hread : readTokens nesting (tokens text) with
    | ok value => simp [Except.mapError]
    | error other =>
      cases stop with
      | broken fault => exact absurd rfl (hstop fault)
      | _ => cases other <;> simp [Except.mapError, Stop.fault, hmark]

/-- A text is refused for a numeral with too many digits where it comes to one for a value. -/
theorem read_eq_longNumeral_iff {text : List Char} {digits : ℕ} :
    readWithin nesting text = .error (.longNumeral digits) ↔ ∃ state placed stack,
      Reaches nesting text state placed ∧
      Awaits nesting state stack ∧ placed.token = .longNumeral digits := by
  have hstop : ∀ fault, Stop.longNumeral digits ≠ .broken fault := by simp
  refine (read_eq_error_iff hstop).trans ?_
  rw [readTokens_eq_error_iff hstop]
  simp only [takeValue_eq_longNumeral_iff, Reaches]
  constructor
  · rintro ⟨hmark, before, placed, after, state, stack, hsplit, hbefore, hawaits, htoken⟩
    exact ⟨state, placed, stack, ⟨hmark, before, after, hsplit, hbefore⟩, hawaits, htoken⟩
  · rintro ⟨state, placed, stack, ⟨hmark, before, after, hsplit, hbefore⟩, hawaits, htoken⟩
    exact ⟨hmark, before, placed, after, state, stack, hsplit, hbefore, hawaits, htoken⟩

/-- A text is refused for its nesting where it comes to one list or object too many for a value. -/
theorem read_eq_nesting_iff {text : List Char} :
    readWithin nesting text = .error .nesting ↔ ∃ state placed stack,
      Reaches nesting text state placed ∧
      Awaits nesting state stack ∧ nesting.levels ≤ stack.length ∧
      (placed.token = .openList ∨ placed.token = .openObject) := by
  have hstop : ∀ fault, Stop.nesting ≠ .broken fault := by simp
  refine (read_eq_error_iff hstop).trans ?_
  rw [readTokens_eq_error_iff hstop]
  simp only [takeValue_eq_nesting_iff, Reaches]
  constructor
  · rintro ⟨hmark, before, placed, after, state, stack, hsplit, hbefore, hawaits, hdeep, htoken⟩
    exact ⟨state, placed, stack, ⟨hmark, before, after, hsplit, hbefore⟩, hawaits, hdeep, htoken⟩
  · rintro ⟨state, placed, stack, ⟨hmark, before, after, hsplit, hbefore⟩, hawaits, hdeep, htoken⟩
    exact ⟨hmark, before, placed, after, state, stack, hsplit, hbefore, hawaits, hdeep, htoken⟩

end Ringtone.Json
