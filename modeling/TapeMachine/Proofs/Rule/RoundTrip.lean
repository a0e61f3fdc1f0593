import Mathlib.Algebra.Order.BigOperators.Group.List
import Mathlib.Algebra.Order.Group.Nat
import TapeMachine.Proofs.Rule.Reader
import TapeMachine.Proofs.Settings.Consistent
import TapeMachine.Proofs.Text.Joined

/-!
# Rule texts round trip

What `Rule.renderAll` writes is read back by `Rule.parse`, for rules that can be written at all
(`Rule.Writable`). All rules that are read from a text can be, unless the comment mark holds white
space; and they are written with no more characters than the text has.
-/

namespace TapeMachine

/-- The word that the settings have for a direction. -/
def Settings.marker (s : Settings) : Direction → String
  | .left => s.left
  | .right => s.right

namespace Rule

open Text

/-- The five words of a rule: state and symbol, new state and new symbol, and the direction. -/
def wordsOf (s : Settings) (r : Rule) : List (List Char) :=
  [r.state.toList, [r.symbol], r.action.newState.toList, [r.action.newSymbol],
    (s.marker r.action.direction).toList]

/-- The characters of the line that a rule is rendered as. -/
def lineOf (s : Settings) (r : Rule) : List Char :=
  (r.renderWith s.left s.right).toList

/-- The line of a rule has the five words of the rule and no comment. -/
structure Writable (s : Settings) (r : Rule) : Prop where
  state : IsWord r.state.toList
  symbol : isWhiteSpace r.symbol = false
  newState : IsWord r.action.newState.toList
  newSymbol : isWhiteSpace r.action.newSymbol = false
  uncommented : ¬ s.commentMark.toList <:+: lineOf s r

variable {s : Settings} {r : Rule} {l : List Char} {ws : List (List Char)} {rules : List Rule}

/-! ## The line of a rule -/

theorem lineOf_eq_joined (s : Settings) (r : Rule) :
    lineOf s r = [' '].intercalate (wordsOf s r) := by
  rw [lineOf, renderWith, wordsOf]
  cases r.action.direction <;> simp [Settings.marker]

theorem Spells.eq_wordsOf (h : Spells s ws r) : ws = wordsOf s r := by
  obtain ⟨move, hmove, rfl⟩ := h
  have hmarker : move = (s.marker r.action.direction).toList := by
    obtain ⟨rfl, hd⟩ | ⟨_, rfl, hd⟩ := hmove
    · rw [hd, Settings.marker]
    · rw [hd, Settings.marker]
  rw [wordsOf, hmarker]

theorem spells_wordsOf (hs : s.left ≠ s.right) (r : Rule) : Spells s (wordsOf s r) r := by
  refine ⟨_, ?_, rfl⟩
  cases hd : r.action.direction with
  | left => exact .inl ⟨rfl, rfl⟩
  | right => exact .inr ⟨fun h => hs (String.toList_inj.1 h).symm, rfl, rfl⟩

theorem isWord_marker (hs : s.Consistent) (d : Direction) : IsWord (s.marker d).toList := by
  cases d with
  | left => exact hs.left
  | right => exact hs.right

theorem Writable.isWord (hs : s.Consistent) (h : Writable s r) : ∀ w ∈ wordsOf s r, IsWord w := by
  simp only [wordsOf, List.forall_mem_cons]
  exact ⟨h.state, isWord_singleton h.symbol, h.newState, isWord_singleton h.newSymbol,
    isWord_marker hs _, by simp⟩

/-- Five words with single gaps between them and no comment are their own content, and spell the
rule. -/
theorem reads_joined {g : Char} (hs : s.Consistent) (hg : isWhiteSpace g = true)
    (hwords : ∀ w ∈ wordsOf s r, IsWord w)
    (hmark : ¬ s.commentMark.toList <:+: [g].intercalate (wordsOf s r)) :
    IsSignificant s ([g].intercalate (wordsOf s r)) ∧
    Reads s ([g].intercalate (wordsOf s r)) r := by
  have hruns := maximalRuns_joined hg hwords
  have hfirst : IsWord r.state.toList := hwords _ List.mem_cons_self
  have hlast : IsWord (s.marker r.action.direction).toList := hwords _ (by simp [wordsOf])
  have htrims : Trims ([g].intercalate (wordsOf s r)) ([g].intercalate (wordsOf s r)) := by
    refine trims_self hfirst hlast ?_ ?_
    · rw [wordsOf, List.intercalate_cons_cons, List.append_assoc]
      exact List.prefix_append _ _
    · rw [wordsOf]
      simp only [List.intercalate_cons_cons, List.intercalate_singleton, ← List.append_assoc]
      exact List.suffix_append _ _
  have hne : [g].intercalate (wordsOf s r) ≠ [] := by
    rw [wordsOf, List.intercalate_cons_cons]
    simp
  refine ⟨⟨_, htrims, hne, fun hprefix => hmark hprefix.isInfix⟩, wordsOf s r, ?_,
    spells_wordsOf hs.left_ne_right r⟩
  exact ⟨_, _, htrims, cutsBefore_self hmark, hruns⟩

theorem Writable.newline_notMem (hs : s.Consistent) (h : Writable s r) : '\n' ∉ lineOf s r := by
  rw [lineOf_eq_joined]
  exact notMem_joined (by decide) (by decide) (h.isWord hs)

theorem Writable.reads (hs : s.Consistent) (h : Writable s r) :
    IsSignificant s (lineOf s r) ∧ Reads s (lineOf s r) r := by
  have hmark := h.uncommented
  rw [lineOf_eq_joined] at hmark ⊢
  exact reads_joined hs (by decide) (h.isWord hs) hmark

/-! ## Texts of rules -/

theorem toList_renderAll (s : Settings) (rules : List Rule) :
    (renderAll s rules).toList = ['\n'].intercalate (rules.map (lineOf s)) := by
  have hnewline : "\n".toList = ['\n'] := rfl
  rw [renderAll, String.toList_intercalate, List.map_map, hnewline]
  rfl

theorem length_renderAll (hne : rules ≠ []) :
    (renderAll s rules).length + 1 = (rules.map fun r => (lineOf s r).length + 1).sum := by
  rw [← String.length_toList, toList_renderAll, length_joined '\n' (by simpa using hne),
    List.map_map]
  rfl

theorem parse_renderAll (hs : s.Consistent) (hrules : ∀ r ∈ rules, Writable s r)
    (hsize : (renderAll s rules).length ≤ s.maxRulesSize.toNat) :
    parse s (renderAll s rules) = .ok rules := by
  refine parse_eq_ok_iff.2 ⟨hsize, ?_⟩
  cases rules with
  | nil =>
    -- The empty text has one line, which is empty.
    have hblank : ¬ IsSignificant s [] := by
      rintro ⟨content, htrims, hne, _⟩
      exact hne (trims_iff.1 htrims).symm
    have hlines : lines (renderAll s []).toList = [[]] := rfl
    simp [hlines, hblank]
  | cons r rules =>
    have hlines : lines (renderAll s (r :: rules)).toList = (r :: rules).map (lineOf s) := by
      rw [toList_renderAll]
      refine isLines_iff.1 ⟨List.cons_ne_nil _ _, ?_, rfl⟩
      exact List.forall_mem_map.2 fun r' hr' => (hrules r' hr').newline_notMem hs
    have hall : ∀ l ∈ (r :: rules).map (lineOf s), IsSignificant s l :=
      List.forall_mem_map.2 fun r' hr' => ((hrules r' hr').reads hs).1
    rw [hlines, List.filter_eq_self.2 (by simpa using hall), List.forall₂_map_left_iff,
      List.forall₂_same]
    exact fun r' hr' => ((hrules r' hr').reads hs).2

/-! ## Rules that were read -/

theorem Reads.isWord (h : Reads s l r) : ∀ w ∈ wordsOf s r, IsWord w := by
  obtain ⟨ws, ⟨content, code, _, _, hruns⟩, hspells⟩ := h
  obtain rfl := hspells.eq_wordsOf
  exact isWord_of_maximalRuns hruns

/-- The words of a line stand before the first mark. -/
theorem Reads.uncommented (hmark : s.commentMark.toList ≠ []) (h : Reads s l r) :
    ∀ w ∈ wordsOf s r, ¬ s.commentMark.toList <:+: w := by
  obtain ⟨ws, ⟨content, code, _, hcode, hruns⟩, hspells⟩ := h
  obtain rfl := hspells.eq_wordsOf
  intro w hw hoccurs
  exact not_infix_of_cutsBefore hmark hcode (hoccurs.trans (infix_of_maximalRuns hruns w hw))

theorem Reads.writable (hmark : s.commentMark.toList ≠ []) (hsolid : IsSolid s.commentMark.toList)
    (h : Reads s l r) : Writable s r := by
  have hwords := h.isWord
  simp only [wordsOf, List.forall_mem_cons] at hwords
  obtain ⟨hstate, hsymbol, hnewState, hnewSymbol, _⟩ := hwords
  refine ⟨hstate, (isSolid_cons.1 hsymbol.2).1, hnewState, (isSolid_cons.1 hnewSymbol.2).1, ?_⟩
  intro hoccurs
  rw [lineOf_eq_joined] at hoccurs
  have hspace : ' ' ∉ s.commentMark.toList := fun hmem => absurd (hsolid _ hmem) (by decide)
  obtain ⟨w, hw, hmarkw⟩ := infix_of_infix_joined hmark hspace hoccurs
  exact h.uncommented hmark w hw hmarkw

theorem exists_line_of_forall₂ {ls : List (List Char)} (h : List.Forall₂ (Reads s) ls rules) :
    ∀ r ∈ rules, ∃ l, Reads s l r := by
  induction h with
  | nil => simp
  | cons hr _ ih => exact List.forall_mem_cons.2 ⟨⟨_, hr⟩, ih⟩

theorem writable_of_forall₂ (hmark : s.commentMark.toList ≠ [])
    (hsolid : IsSolid s.commentMark.toList)
    {ls : List (List Char)} (h : List.Forall₂ (Reads s) ls rules) : ∀ r ∈ rules, Writable s r := by
  intro r hr
  obtain ⟨l, hl⟩ := exists_line_of_forall₂ h r hr
  exact hl.writable hmark hsolid

theorem Reads.length_lineOf_le (h : Reads s l r) : (lineOf s r).length ≤ l.length := by
  obtain ⟨ws, ⟨content, code, ⟨left, right, rfl, _⟩, ⟨tail, rfl, _⟩, hruns⟩, hspells⟩ := h
  obtain rfl := hspells.eq_wordsOf
  have hsum := (sum_le_of_maximalRuns hruns).1
  have hne : wordsOf s r ≠ [] := List.cons_ne_nil _ _
  have hjoined := length_joined ' ' hne
  rw [← lineOf_eq_joined] at hjoined
  simp only [List.length_append]
  omega

theorem length_renderAll_le {text : String} (h : parse s text = .ok rules) :
    (renderAll s rules).length ≤ text.length := by
  let kept := (lines text.toList).filter (IsSignificant s ·)
  have hreads : List.Forall₂ (Reads s) kept rules := (parse_eq_ok_iff.1 h).2
  by_cases hnil : rules = []
  · rw [hnil]
    exact Nat.zero_le _
  have hrendered := length_renderAll (s := s) hnil
  have htext := length_joined '\n' (lines_ne_nil text.toList)
  rw [(isLines_iff.2 rfl).2.2, String.length_toList] at htext
  -- Each rule has a line of its own in the text, which is no shorter than the one it is written on.
  have hlines : List.Forall₂ (· ≤ ·) (rules.map fun r => (lineOf s r).length + 1)
      (kept.map (·.length + 1)) := by
    rw [List.forall₂_map_left_iff, List.forall₂_map_right_iff]
    exact hreads.flip.imp fun r l (hr : Reads s l r) => Nat.succ_le_succ hr.length_lineOf_le
  have hkept : kept.Sublist (lines text.toList) := List.filter_sublist
  have hsum := calc (rules.map fun r => (lineOf s r).length + 1).sum
      ≤ (kept.map (·.length + 1)).sum := hlines.sum_le_sum
    _ ≤ ((lines text.toList).map (·.length + 1)).sum :=
        (hkept.map _).sum_le_sum fun _ _ => Nat.zero_le _
  omega

/-- Under consistent settings, rules that can be written are read back from their text, provided
that it is not too large. If no comment mark holds white space, the rules read from any text can
be written, with no more characters than the text has, and are read back: comments and layout
are all that is lost. -/
theorem rule_texts_round_trip {s : Settings} (hs : s.check = .ok ()) :
    (∀ rules, (∀ r ∈ rules, Writable s r) →
      (renderAll s rules).length ≤ s.maxRulesSize.toNat →
      parse s (renderAll s rules) = .ok rules) ∧
    (IsSolid s.commentMark.toList → ∀ text rules, parse s text = .ok rules →
      (renderAll s rules).length ≤ text.length ∧ parse s (renderAll s rules) = .ok rules) ∧
    (s.left = "L" → s.right = "R" → ∀ rules,
      renderAll s rules = "\n".intercalate (rules.map render)) := by
  have hs := Settings.check_eq_ok_iff.1 hs
  refine ⟨fun rules => parse_renderAll hs, ?_, ?_⟩
  · intro hsolid text rules h
    obtain ⟨hsize, hreads⟩ := parse_eq_ok_iff.1 h
    have hle := length_renderAll_le h
    have hwritable := writable_of_forall₂ hs.commentMark_ne_nil hsolid hreads
    exact ⟨hle, parse_renderAll hs hwritable (hle.trans hsize)⟩
  · intro hleft hright rules
    rw [renderAll, hleft, hright]
    rfl

/-- A comment that touches the last word, and moves with markers of their own; and a state name with
part of a comment mark that has a space in it. -/
theorem rule_texts_round_trip_marked :
    let s : Settings := { left := "<-", right := "->", commentMark := "#" }
    let rules : List Rule := [⟨"A", 'x', ⟨"B", 'y', .right⟩⟩, ⟨"B", 'é', ⟨"A", '|', .left⟩⟩]
    let spaced : Settings := { commentMark := "# " }
    let sharp : Rule := ⟨"#A", 'x', ⟨"#B", 'y', .left⟩⟩
    parse s "\tA x  B y ->#right\n# all else\n B é A | <-" = .ok rules ∧
      parse s (renderAll s rules) = .ok rules ∧
      Writable spaced sharp ∧ parse spaced (renderAll spaced [sharp]) = .ok [sharp] := by
  intro s rules spaced sharp
  have hparse : parse s "\tA x  B y ->#right\n# all else\n B é A | <-" = .ok rules := by
    decide +kernel
  have hmark : IsSolid s.commentMark.toList := by
    simp [IsSolid, s, isWhiteSpace]
  have hsharp : Writable spaced sharp := by
    refine ⟨?_, by decide, ?_, by decide, by decide +kernel⟩
    · simp [IsWord, IsSolid, sharp, isWhiteSpace]
    · simp [IsWord, IsSolid, sharp, isWhiteSpace]
  obtain ⟨_, htrip, _⟩ := rule_texts_round_trip (s := s) (by decide +kernel)
  obtain ⟨hback, _⟩ := rule_texts_round_trip (s := spaced) (by decide +kernel)
  refine ⟨hparse, (htrip hmark _ rules hparse).2, hsharp, hback [sharp] ?_ (by decide +kernel)⟩
  simpa using hsharp

end Rule

end TapeMachine
