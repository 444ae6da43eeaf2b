import Ringtone.Proofs.Tokens

/-!
# How a score is laid out

A score is words with gaps around them: there may be a gap before the first word and behind the
last, and there is one between any two. The tokens of a score are the words of its layout, whatever
the gaps are made of. Every text has a layout, so that nothing but blanks is lost.
-/

namespace Ringtone

open Text

namespace Score

/-- A text that is one word: it has characters, and none of them is blank. -/
def IsWord (text : List Char) : Prop := text ≠ [] ∧ ∀ c ∈ text, isBlank c = false

/-- A text of blanks, or no text at all. -/
def IsGap (text : List Char) : Prop := ∀ c ∈ text, isBlank c = true

/-- A score as it is laid out: a gap, and words with the gap behind each of them. -/
structure Layout where
  /-- The gap before the first word. -/
  lead : List Char
  /-- The words, each with the gap behind it. -/
  items : List (List Char × List Char)
  /-- The gap before the first word is one. -/
  lead_isGap : IsGap lead
  /-- The words are words. -/
  isWord : ∀ item ∈ items, IsWord item.1
  /-- The gaps behind them are gaps. -/
  isGap : ∀ item ∈ items, IsGap item.2
  /-- Only behind the last word there may be nothing. -/
  gap_ne_nil : ∀ item ∈ items.dropLast, item.2 ≠ []

namespace Layout

/-- The words with the gaps behind them, joined. -/
def join (items : List (List Char × List Char)) : List Char :=
  items.flatMap fun item => item.1 ++ item.2

theorem join_cons (item : List Char × List Char) (rest : List (List Char × List Char)) :
    join (item :: rest) = item.1 ++ item.2 ++ join rest := rfl

/-- The text of the score. -/
def text (layout : Layout) : List Char := layout.lead ++ join layout.items

/-- The words of the score. -/
def words (layout : Layout) : List (List Char) := layout.items.map Prod.fst

/-! ## The tokens of a layout -/

/-- A word is a token, if a gap or nothing is behind it. -/
theorem tokens_word_append {word gap rest : List Char} (hword : IsWord word) (hgap : IsGap gap)
    (hend : gap ≠ [] ∨ rest = []) : tokens (word ++ gap ++ rest) = word :: tokens rest := by
  have htoken := tokens_of_not_isBlank hword.1 hword.2
  by_cases hne : gap = []
  · obtain rfl := hend.resolve_left (not_not.mpr hne)
    rw [hne, List.append_nil, List.append_nil, htoken]
    rfl
  · rw [tokens_append_blanks hne hgap, htoken]
    rfl

/-- Behind the first word there is a gap, or nothing at all. -/
theorem gap_ne_nil_cons {item : List Char × List Char} {rest : List (List Char × List Char)}
    (h : ∀ other ∈ (item :: rest).dropLast, other.2 ≠ []) :
    (item.2 ≠ [] ∨ rest = []) ∧ ∀ other ∈ rest.dropLast, other.2 ≠ [] := by
  cases rest with
  | nil => exact ⟨Or.inr rfl, List.forall_mem_nil _⟩
  | cons next more =>
    obtain ⟨hitem, hmore⟩ := List.forall_mem_cons.mp h
    exact ⟨Or.inl hitem, hmore⟩

theorem tokens_join {items : List (List Char × List Char)} (hword : ∀ item ∈ items, IsWord item.1)
    (hgap : ∀ item ∈ items, IsGap item.2) (hends : ∀ item ∈ items.dropLast, item.2 ≠ []) :
    tokens (join items) = items.map Prod.fst := by
  induction items with
  | nil => rfl
  | cons item rest ih =>
    obtain ⟨hfirst, hwords⟩ := List.forall_mem_cons.mp hword
    obtain ⟨hbehind, hgaps⟩ := List.forall_mem_cons.mp hgap
    obtain ⟨hend, hrest⟩ := gap_ne_nil_cons hends
    have hbreak : item.2 ≠ [] ∨ join rest = [] := hend.imp_right (congrArg join)
    rw [join_cons, tokens_word_append hfirst hbehind hbreak, ih hwords hgaps hrest, List.map_cons]

theorem tokens_text (layout : Layout) : tokens layout.text = layout.words := by
  rw [text, tokens_blanks_append layout.lead_isGap,
    tokens_join layout.isWord layout.isGap layout.gap_ne_nil]
  rfl

example : tokens ['\t', '4', 'c', '4', ' ', '\u2003', '8', 'e', '4', '\n'] =
    [['4', 'c', '4'], ['8', 'e', '4']] := by decide

/-! ## Every text has a layout -/

/-- The layout of no text. -/
def empty : Layout where
  lead := []
  items := []
  lead_isGap := List.forall_mem_nil _
  isWord := List.forall_mem_nil _
  isGap := List.forall_mem_nil _
  gap_ne_nil := List.forall_mem_nil _

/-- A blank before a score makes the gap before it longer. -/
theorem exists_blank_cons {c : Char} (hc : isBlank c = true) (layout : Layout) :
    ∃ other : Layout, other.text = c :: layout.text :=
  ⟨{ layout with
      lead := c :: layout.lead
      lead_isGap := List.forall_mem_cons.mpr ⟨hc, layout.lead_isGap⟩ }, rfl⟩

/-- Any other character makes the first word longer, or is a word before the gap. -/
theorem exists_word_cons {c : Char} (hc : isBlank c = false) (layout : Layout) :
    ∃ other : Layout, other.text = c :: layout.text := by
  obtain ⟨lead, items, hlead, hword, hgap, hends⟩ := layout
  have hsingle : IsWord [c] := ⟨List.cons_ne_nil _ _, by simpa using hc⟩
  cases lead with
  | nil =>
    cases items with
    | nil =>
      exact ⟨⟨[], [([c], [])], hlead, by simpa using hsingle, by simp [IsGap], by simp⟩, rfl⟩
    | cons item rest =>
      obtain ⟨hfirst, hwords⟩ := List.forall_mem_cons.mp hword
      have hlonger : IsWord (c :: item.1) :=
        ⟨List.cons_ne_nil _ _, List.forall_mem_cons.mpr ⟨hc, hfirst.2⟩⟩
      refine ⟨⟨[], (c :: item.1, item.2) :: rest, hlead,
        List.forall_mem_cons.mpr ⟨hlonger, hwords⟩, ?_, ?_⟩, rfl⟩
      · exact List.forall_mem_cons.mpr (List.forall_mem_cons.mp hgap)
      · cases rest with
        | nil => exact List.forall_mem_nil _
        | cons next more => exact List.forall_mem_cons.mpr (List.forall_mem_cons.mp hends)
  | cons blank blanks =>
    refine ⟨⟨[], ([c], blank :: blanks) :: items, List.forall_mem_nil _,
      List.forall_mem_cons.mpr ⟨hsingle, hword⟩, List.forall_mem_cons.mpr ⟨hlead, hgap⟩, ?_⟩, ?_⟩
    · cases items with
      | nil => exact List.forall_mem_nil _
      | cons next more => exact List.forall_mem_cons.mpr ⟨List.cons_ne_nil _ _, hends⟩
    · simp [text, join]

theorem exists_text_eq (score : List Char) : ∃ layout : Layout, layout.text = score := by
  induction score with
  | nil => exact ⟨empty, rfl⟩
  | cons c rest ih =>
    obtain ⟨layout, rfl⟩ := ih
    cases hc : isBlank c with
    | true => exact exists_blank_cons hc layout
    | false => exact exists_word_cons hc layout

/-! ## What is lost -/

theorem filter_word {text : List Char} (h : IsWord text) :
    text.filter (fun c => !isBlank c) = text :=
  List.filter_eq_self.mpr fun c hc => by rw [h.2 c hc]; rfl

theorem filter_gap {text : List Char} (h : IsGap text) : text.filter (fun c => !isBlank c) = [] :=
  List.filter_eq_nil_iff.mpr fun c hc => by simp [h c hc]

theorem filter_join {items : List (List Char × List Char)} (hword : ∀ item ∈ items, IsWord item.1)
    (hgap : ∀ item ∈ items, IsGap item.2) :
    (join items).filter (fun c => !isBlank c) = (items.map Prod.fst).flatten := by
  induction items with
  | nil => rfl
  | cons item rest ih =>
    obtain ⟨hfirst, hwords⟩ := List.forall_mem_cons.mp hword
    obtain ⟨hbehind, hgaps⟩ := List.forall_mem_cons.mp hgap
    rw [join_cons, List.filter_append, List.filter_append, filter_word hfirst, filter_gap hbehind,
      List.append_nil, ih hwords hgaps, List.map_cons, List.flatten_cons]

theorem filter_text (layout : Layout) :
    layout.text.filter (fun c => !isBlank c) = layout.words.flatten := by
  rw [text, List.filter_append, filter_gap layout.lead_isGap, List.nil_append,
    filter_join layout.isWord layout.isGap]
  rfl

end Layout

/-- The tokens of a score are the words of its layout, and every score has one. So the tokens are
words, and together they are the score without its blanks. -/
theorem tokens_eq_iff_layout (score : List Char) :
    (∀ words, tokens score = words ↔
      ∃ layout : Layout, layout.text = score ∧ layout.words = words) ∧
    (∀ token ∈ tokens score, IsWord token) ∧
    (tokens score).flatten = score.filter fun c => !isBlank c := by
  obtain ⟨layout, rfl⟩ := Layout.exists_text_eq score
  have htokens := layout.tokens_text
  refine ⟨fun words => ⟨fun hwords => ⟨layout, rfl, htokens.symm.trans hwords⟩, ?_⟩, ?_, ?_⟩
  · rintro ⟨other, hsame, rfl⟩
    rw [← hsame, other.tokens_text]
  · rw [htokens]
    exact List.forall_mem_map.mpr layout.isWord
  · rw [htokens, layout.filter_text]

/-- A character that is not blank stands in a token. -/
theorem exists_mem_tokens {score : List Char} {c : Char} (hc : c ∈ score)
    (hblank : isBlank c = false) : ∃ token ∈ tokens score, c ∈ token := by
  obtain ⟨layout, rfl⟩ := Layout.exists_text_eq score
  have hword : c ∈ layout.words.flatten := by
    rw [← layout.filter_text]
    exact List.mem_filter.mpr ⟨hc, by simp [hblank]⟩
  rw [layout.tokens_text]
  exact List.mem_flatten.mp hword

end Score

end Ringtone
