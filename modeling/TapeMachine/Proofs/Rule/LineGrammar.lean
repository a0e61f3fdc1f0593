import TapeMachine.Proofs.Text.Grammar
import TapeMachine.Proofs.Text.Words

/-!
# The grammar of a line

A line of a rule text is words with white space around them. Between any two parts of a line,
and between any two words, the grammar skips as much white space as there is; inside a word
it skips nothing. On every text this grammar succeeds, takes all of it and reports the words
that `Text.words` gives.
-/

namespace TapeMachine.Rule.LineGrammar

open Text Text.Peg

/-- As much white space as there is. -/
def gap : Peg :=
  .star (.one isWhiteSpace)

/-- Two parts, with white space between them. -/
def spaced (a b : Peg) : Peg :=
  .seq a (.seq gap b)

/-- Any number of `a`, with white space between any two. -/
def spacedStar (a : Peg) : Peg :=
  .opt (.seq a (.star (.seq gap a)))

/-- One or more characters that are not white space, each taken after a look ahead. -/
def word : Peg :=
  .token (plus (.seq (.not (.one isWhiteSpace)) (.one fun _ => true)))

/-- Any number of words from the start of a text to its end, with white space between the parts. -/
def line : Peg :=
  spaced (spaced .start (spacedStar word)) .finish

variable {whole : List Char}

/-! ## White space -/

theorem parses_whiteSpace_none {rest : List Char} (hr : BeginsSolid rest) :
    Parses whole (.one isWhiteSpace) rest none := by
  cases rest with
  | nil => exact .one_nil
  | cons c rest => exact .one_other (hr c rfl)

theorem parses_gap {left rest : List Char} (hl : IsGap left) (hr : BeginsSolid rest) :
    Parses whole gap (left ++ rest) (some ([], rest)) := by
  induction left with
  | nil => exact .star_done (parses_whiteSpace_none hr)
  | cons c left ih =>
    obtain ⟨hc, hl⟩ := isGap_cons.1 hl
    exact .star_more (.one hc) (ih hl)

/-! ## Words -/

theorem parses_letter {c : Char} (hc : isWhiteSpace c = false) (rest : List Char) :
    Parses whole (.seq (.not (.one isWhiteSpace)) (.one fun _ => true)) (c :: rest)
      (some ([], rest)) := by
  have hnot : Parses whole (.not (.one isWhiteSpace)) (c :: rest) (some ([], c :: rest)) :=
    .not (.one_other hc)
  exact .seq hnot (.one rfl)

theorem parses_letter_none {rest : List Char} (hr : BeginsWithGap rest) :
    Parses whole (.seq (.not (.one isWhiteSpace)) (.one fun _ => true)) rest none := by
  cases rest with
  | nil => exact .seq_second (.not .one_nil) .one_nil
  | cons c rest => exact .seq_first (.not_fail (.one (hr c rfl)))

theorem parses_letters {w rest : List Char} (hw : IsSolid w) (hr : BeginsWithGap rest) :
    Parses whole (.star (.seq (.not (.one isWhiteSpace)) (.one fun _ => true))) (w ++ rest)
      (some ([], rest)) := by
  induction w with
  | nil => exact .star_done (parses_letter_none hr)
  | cons c w ih =>
    obtain ⟨hc, hw⟩ := isSolid_cons.1 hw
    exact .star_more (parses_letter hc _) (ih hw)

theorem parses_word {w rest : List Char} (hne : w ≠ []) (hw : IsSolid w) (hr : BeginsWithGap rest) :
    Parses whole word (w ++ rest) (some ([w], rest)) := by
  cases w with
  | nil => exact absurd rfl hne
  | cons c w =>
    obtain ⟨hc, hw⟩ := isSolid_cons.1 hw
    exact .token rfl (.seq (parses_letter hc _) (parses_letters hw hr))

theorem parses_word_none {rest : List Char} (hr : BeginsWithGap rest) :
    Parses whole word rest none :=
  .token_fail (.seq_first (parses_letter_none hr))

/-! ## Lines -/

theorem parses_gap_all {left : List Char} (hl : IsGap left) :
    Parses whole gap left (some ([], [])) := by
  have hnil : BeginsSolid [] := fun c hc => by cases hc
  simpa using parses_gap hl hnil

/-- The words after the first one. The star stops before the last gap, since it takes a gap only
with a word behind it. -/
theorem parses_more_words {text : List Char} {ws : List (List Char)} (h : MaximalRuns text ws) :
    ∃ right, IsGap right ∧
      Parses whole (.star (.seq gap word)) text (some (ws, right)) := by
  induction h with
  | @nil left hl =>
    refine ⟨left, hl, .star_done ?_⟩
    exact .seq_second (parses_gap_all hl) (parses_word_none isGap_nil.beginsWithGap)
  | @cons left w rest ws hl hne hw hr _ ih =>
    obtain ⟨right, hright, hmore⟩ := ih
    have hgap : Parses whole gap (left ++ (w ++ rest)) (some ([], w ++ rest)) :=
      parses_gap hl (beginsSolid_append hne hw rest)
    exact ⟨right, hright, .star_more (.seq hgap (parses_word hne hw hr)) hmore⟩

theorem parses_words {text : List Char} {ws : List (List Char)} (h : MaximalRuns text ws) :
    ∃ right, IsGap right ∧
      Parses whole (.seq gap (spacedStar word)) text (some (ws, right)) := by
  cases h with
  | nil hl =>
    have hnone : Parses whole word [] none := parses_word_none isGap_nil.beginsWithGap
    refine ⟨[], isGap_nil, ?_⟩
    exact .seq (parses_gap_all hl) (.opt_skip (.seq_first hnone))
  | @cons left w rest ws hl hne hw hr hrest =>
    obtain ⟨right, hright, hmore⟩ := parses_more_words hrest
    have hgap : Parses whole gap (left ++ (w ++ rest)) (some ([], w ++ rest)) :=
      parses_gap hl (beginsSolid_append hne hw rest)
    exact ⟨right, hright, .seq hgap (.opt (.seq (parses_word hne hw hr) hmore))⟩

/-- The grammar never fails: on every text it takes all of it and reports its words. -/
theorem parses_line_iff {text : List Char} {o : Outcome} :
    Parses text line text o ↔ o = some (words text, []) := by
  have hline : Parses text line text (some (words text, [])) := by
    have hruns : MaximalRuns text (words text) := maximalRuns_iff.2 rfl
    obtain ⟨right, hright, hwords⟩ := parses_words hruns
    have hall : Parses text line text (some (([] ++ words text) ++ ([] ++ []), [])) :=
      .seq (.seq .start hwords) (.seq (parses_gap_all hright) .finish)
    simpa using hall
  constructor
  · intro h
    exact h.unique hline
  · rintro rfl
    exact hline

end TapeMachine.Rule.LineGrammar
