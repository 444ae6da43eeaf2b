import Ringtone.Composer
import Ringtone.Proofs.Traversal

/-!
# Tokens of a score

Blanks do nothing but separate: a blank between two texts keeps the tokens of the one apart from
those of the other, and more blanks do no more. Scores that are joined with blanks between them are
therefore compiled one after the other, and the first that does not compile decides.
-/

namespace Ringtone

open Text

namespace Score

variable {c : Char} {blanks : List Char}

/-- A blank ends the token before it, wherever the texts around it are cut. -/
theorem split_append_blank (hc : isBlank c = true) (first second : List Char) :
    split (first ++ c :: second) = ((split first).1, (split first).2 ++ tokens second) := by
  induction first with
  | nil => simp [split, hc, tokens]
  | cons d rest ih =>
    rw [List.cons_append, split, ih, split]
    by_cases hd : isBlank d = true
    · simp only [hd, if_true]
      split_ifs <;> simp
    · simp [hd]

theorem tokens_append_blank (hc : isBlank c = true) (first second : List Char) :
    tokens (first ++ c :: second) = tokens first ++ tokens second := by
  have htokens : tokens first =
      if (split first).1 = [] then (split first).2 else (split first).1 :: (split first).2 := rfl
  rw [tokens, split_append_blank hc, htokens]
  dsimp only
  split_ifs
  · rfl
  · rw [List.cons_append]

/-- Blanks before a score do not matter. -/
theorem tokens_blanks_append (hblanks : ∀ c ∈ blanks, isBlank c = true) (score : List Char) :
    tokens (blanks ++ score) = tokens score := by
  induction blanks with
  | nil => rfl
  | cons c rest ih =>
    obtain ⟨hc, hrest⟩ := List.forall_mem_cons.mp hblanks
    have hfirst := tokens_append_blank hc [] (rest ++ score)
    rw [List.nil_append] at hfirst
    rw [List.cons_append, hfirst, ih hrest]
    rfl

theorem tokens_append_blanks (hne : blanks ≠ []) (hblanks : ∀ c ∈ blanks, isBlank c = true)
    (first second : List Char) :
    tokens (first ++ blanks ++ second) = tokens first ++ tokens second := by
  obtain ⟨c, rest, rfl⟩ := List.exists_cons_of_ne_nil hne
  obtain ⟨hc, hrest⟩ := List.forall_mem_cons.mp hblanks
  rw [List.append_assoc, List.cons_append, tokens_append_blank hc, tokens_blanks_append hrest]

/-- Only a blank score has no tokens. -/
theorem tokens_eq_nil_iff {score : List Char} :
    tokens score = [] ↔ ∀ c ∈ score, isBlank c = true := by
  induction score with
  | nil => simp [tokens, split]
  | cons c rest ih =>
    rw [List.forall_mem_cons, ← ih]
    by_cases hblank : isBlank c = true
    · simp [tokens, split, hblank]
    · simp [tokens, split, hblank]

/-- A text without blanks is one token. -/
theorem tokens_of_not_isBlank {token : List Char} (hne : token ≠ [])
    (h : ∀ c ∈ token, isBlank c = false) : tokens token = [token] := by
  have hsplit : split token = (token, []) := by
    clear hne
    induction token with
    | nil => rfl
    | cons c rest ih =>
      obtain ⟨hc, hrest⟩ := List.forall_mem_cons.mp h
      rw [split, ih hrest]
      simp [hc]
  rw [tokens, hsplit]
  exact if_neg hne

end Score

namespace Composer

variable {composer : Composer} {blanks : List Char}

theorem compile_append_blanks (hne : blanks ≠ []) (hblanks : ∀ c ∈ blanks, isBlank c = true)
    (first second : List Char) :
    composer.compile (first ++ blanks ++ second) = (do
      let tones ← composer.compile first
      let more ← composer.compile second
      return tones ++ more) := by
  rw [compile, Score.compile, Score.tokens_append_blanks hne hblanks, List.mapM_append]
  rfl

theorem compile_blanks_append (hblanks : ∀ c ∈ blanks, isBlank c = true) (score : List Char) :
    composer.compile (blanks ++ score) = composer.compile score := by
  rw [compile, Score.compile, Score.tokens_blanks_append hblanks]
  rfl

theorem compile_nil : composer.compile [] = .ok [] := rfl

/-- Two scores with blanks between them are compiled one after the other: the first fault is that of
the first score, if it has one, whatever follows, and then that of the second; without a fault, the
tones of the second follow those of the first. How many blanks there are, and which, does not
matter, nor do blanks before or behind a score. -/
theorem compile_joined (composer : Composer) (blanks first second : List Char)
    (hne : blanks ≠ []) (hblanks : ∀ c ∈ blanks, isBlank c = true) :
    (∀ fault, composer.compile first = .error fault →
      composer.compile (first ++ blanks ++ second) = .error fault) ∧
    (∀ tones fault, composer.compile first = .ok tones → composer.compile second = .error fault →
      composer.compile (first ++ blanks ++ second) = .error fault) ∧
    (∀ tones more, composer.compile first = .ok tones → composer.compile second = .ok more →
      composer.compile (first ++ blanks ++ second) = .ok (tones ++ more)) ∧
    (∀ others, others ≠ [] → (∀ c ∈ others, isBlank c = true) →
      composer.compile (first ++ others ++ second) =
        composer.compile (first ++ blanks ++ second)) ∧
    composer.compile (blanks ++ second) = composer.compile second ∧
    composer.compile (first ++ blanks) = composer.compile first := by
  have hjoined : ∀ first second, composer.compile (first ++ blanks ++ second) = (do
      let tones ← composer.compile first
      let more ← composer.compile second
      return tones ++ more) := compile_append_blanks hne hblanks
  refine ⟨?_, ?_, ?_, ?_, compile_blanks_append hblanks second, ?_⟩
  · intro fault hfirst
    rw [hjoined, hfirst]
    rfl
  · intro tones fault hfirst hsecond
    rw [hjoined, hfirst, hsecond]
    rfl
  · intro tones more hfirst hsecond
    rw [hjoined, hfirst, hsecond]
    rfl
  · intro others hothers hall
    rw [compile_append_blanks hothers hall, hjoined]
  · have hempty := hjoined first []
    rw [List.append_nil, compile_nil] at hempty
    rw [hempty]
    cases composer.compile first with
    | error fault => rfl
    | ok tones => exact congrArg Except.ok (List.append_nil tones)

/-- An em space and a line feed separate as a space does. -/
theorem compile_joined_em_space :
    (∀ c ∈ ['\u2003', '\n'], isBlank c = true) ∧
      compile ⟨⟨120, by decide⟩, 440, by decide⟩
          ("\t2a4 ".toList ++ ['\u2003', '\n'] ++ "4h4 2a4".toList) =
        .error (.badNote "4h4".toList (.unknownPitch (.ofString "h4"))) := by
  have hblanks : ∀ c ∈ ['\u2003', '\n'], isBlank c = true := by
    simp [isBlank, Text.blanks]
  have hfirst : compile ⟨⟨120, by decide⟩, 440, by decide⟩ "\t2a4 ".toList = .ok [⟨440, 1000⟩] :=
    eq_ok_of_toOption (by decide +kernel)
  exact ⟨hblanks, (compile_joined ⟨⟨120, by decide⟩, 440, by decide⟩ ['\u2003', '\n']
    "\t2a4 ".toList "4h4 2a4".toList (List.cons_ne_nil _ _) hblanks).2.1 _ _ hfirst rfl⟩

end Composer

end Ringtone
