import Mathlib.Algebra.Ring.Nat
import TapeMachine.Proofs.Text.Lines
import TapeMachine.Proofs.Text.Words

/-!
# Words with single gaps between them

Joining words by one character of white space gives the shortest text with these words
(`Text.sum_le_of_maximalRuns`), and a mark without that character occurs in it only inside a word
(`Text.infix_of_infix_joined`).
-/

namespace TapeMachine.Text

variable {mark text : List Char} {ws : List (List Char)} {g : Char}

theorem isWord_singleton {c : Char} (h : isWhiteSpace c = false) : IsWord [c] :=
  ⟨List.cons_ne_nil c [], isSolid_cons.2 ⟨h, fun d hd => by cases hd⟩⟩

theorem IsWord.reverse {w : List Char} (h : IsWord w) : IsWord w.reverse :=
  ⟨by simpa using h.1, fun c hc => h.2 c (List.mem_reverse.1 hc)⟩

theorem trims_self {first last : List Char} (hfirst : IsWord first) (hlast : IsWord last)
    (hbegin : first <+: text) (hend : last <:+ text) : Trims text text := by
  refine ⟨[], [], by simp, isGap_nil, isGap_nil, ?_, ?_⟩
  · obtain ⟨rest, rfl⟩ := hbegin
    exact beginsSolid_append hfirst.1 hfirst.2 rest
  · obtain ⟨front, rfl⟩ := hend
    rw [List.reverse_append]
    exact beginsSolid_append hlast.reverse.1 hlast.reverse.2 front.reverse

/-! ## The words of a text -/

theorem isWord_of_maximalRuns (h : MaximalRuns text ws) : ∀ w ∈ ws, IsWord w := by
  induction h with
  | nil => simp
  | cons _ hne hw _ _ ih => exact List.forall_mem_cons.2 ⟨⟨hne, hw⟩, ih⟩

theorem infix_of_maximalRuns (h : MaximalRuns text ws) : ∀ w ∈ ws, w <:+: text := by
  induction h with
  | nil => simp
  | @cons gap word rest ws _ _ _ _ _ ih =>
    refine List.forall_mem_cons.2 ⟨⟨gap, rest, by simp⟩, ?_⟩
    intro w hw
    have hrest : rest <:+: gap ++ (word ++ rest) := ⟨gap ++ word, [], by simp⟩
    exact (ih w hw).trans hrest

theorem maximalRuns_joined (hg : isWhiteSpace g = true) (h : ∀ w ∈ ws, IsWord w) :
    MaximalRuns ([g].intercalate ws) ws := by
  induction ws with
  | nil => exact .nil isGap_nil
  | cons w ws ih =>
    obtain ⟨hw, hws⟩ := List.forall_mem_cons.1 h
    cases ws with
    | nil =>
      have hnil : BeginsWithGap [] := isGap_nil.beginsWithGap
      simpa using MaximalRuns.cons isGap_nil hw.1 hw.2 hnil (.nil isGap_nil)
    | cons w' ws =>
      -- The separator in front belongs to the gap before the second word.
      have hgap : IsGap [g] := isGap_cons.2 ⟨hg, isGap_nil⟩
      have hrest : MaximalRuns (g :: [g].intercalate (w' :: ws)) (w' :: ws) := by
        have hruns := words_of_maximalRuns (ih hws)
        exact maximalRuns_iff.2 ((words_gap_append hgap _).trans hruns)
      have hbegin : BeginsWithGap (g :: [g].intercalate (w' :: ws)) := by
        intro c hc
        obtain rfl : g = c := by simpa using hc
        exact hg
      rw [List.intercalate_cons_cons, List.append_assoc]
      exact .cons isGap_nil hw.1 hw.2 hbegin hrest

theorem mem_joined {c : Char} (h : c ∈ [g].intercalate ws) : c = g ∨ ∃ w ∈ ws, c ∈ w := by
  induction ws with
  | nil => simp at h
  | cons w ws ih =>
    cases ws with
    | nil => exact .inr ⟨w, List.mem_cons_self, by simpa using h⟩
    | cons w' ws =>
      rw [List.intercalate_cons_cons, List.mem_append, List.mem_append, List.mem_singleton] at h
      obtain (hw | hc) | hrest := h
      · exact .inr ⟨w, List.mem_cons_self, hw⟩
      · exact .inl hc
      · obtain hc | ⟨v, hv, hc⟩ := ih hrest
        · exact .inl hc
        · exact .inr ⟨v, List.mem_cons_of_mem w hv, hc⟩

theorem notMem_joined {c : Char} (hne : c ≠ g) (hc : isWhiteSpace c = true)
    (h : ∀ w ∈ ws, IsWord w) : c ∉ [g].intercalate ws := by
  intro hmem
  obtain hsame | ⟨w, hw, hcw⟩ := mem_joined hmem
  · exact hne hsame
  · rw [(h w hw).2 c hcw] at hc
    cases hc

/-! ## Lengths -/

/-- One separator less than there are pieces. -/
theorem length_joined (c : Char) {pieces : List (List Char)} (h : pieces ≠ []) :
    ([c].intercalate pieces).length + 1 = (pieces.map (·.length + 1)).sum := by
  induction pieces with
  | nil => exact absurd rfl h
  | cons piece pieces ih =>
    cases pieces with
    | nil => simp
    | cons piece' pieces =>
      have hrest := ih (List.cons_ne_nil _ _)
      rw [List.intercalate_cons_cons, List.map_cons, List.sum_cons, ← hrest]
      simp only [List.length_append, List.length_singleton]
      omega

/-- Each word takes its length and a gap. The text may end without a gap, or, if it begins with
one, it has one to spare. -/
theorem sum_le_of_maximalRuns (h : MaximalRuns text ws) :
    (ws.map (·.length + 1)).sum ≤ text.length + 1 ∧
      (BeginsWithGap text → (ws.map (·.length + 1)).sum ≤ text.length) := by
  induction h with
  | nil => simp
  | @cons gap word rest ws _ hne hw hrest _ ih =>
    have hsum := ih.2 hrest
    simp only [List.map_cons, List.sum_cons, List.length_append]
    refine ⟨by omega, ?_⟩
    intro hbegin
    have hgap : gap ≠ [] := by
      rintro rfl
      cases word with
      | nil => exact hne rfl
      | cons c word =>
        have hsolid := (isSolid_cons.1 hw).1
        rw [hbegin c rfl] at hsolid
        cases hsolid
    have hpos := List.length_pos_iff.2 hgap
    omega

/-! ## Marks -/

/-- A mark that begins at no place of the text does not occur, and the other way round. -/
theorem cutsBefore_self (h : ¬ mark <:+: text) : CutsBefore mark text text := by
  refine ⟨[], by simp, .inr rfl, ?_⟩
  rintro pre post rfl _ ⟨rest, hrest⟩
  rw [List.append_nil] at hrest
  exact h ⟨pre, rest, by rw [List.append_assoc, hrest]⟩

theorem not_infix_of_cutsBefore {head : List Char} (hmark : mark ≠ [])
    (h : CutsBefore mark text head) : ¬ mark <:+: head := by
  obtain ⟨tail, _, _, hno⟩ := h
  rintro ⟨pre, post, rfl⟩
  refine hno pre (mark ++ post) (List.append_assoc ..) ?_ ⟨post ++ tail,
    (List.append_assoc ..).symm⟩
  exact fun hnil => hmark (List.append_eq_nil_iff.1 hnil).1

/-- An occurrence without the separator in it lies in one of the words. -/
theorem infix_of_infix_joined (hne : mark ≠ []) (hg : g ∉ mark) (h : mark <:+: [g].intercalate ws) :
    ∃ w ∈ ws, mark <:+: w := by
  induction ws with
  | nil => exact absurd (List.eq_nil_of_infix_nil h) hne
  | cons w ws ih =>
    cases ws with
    | nil => exact ⟨w, List.mem_cons_self, by simpa using h⟩
    | cons w' ws =>
      rw [List.intercalate_cons_cons, List.append_assoc, List.infix_append_iff] at h
      -- In the first word, behind it, or across its end; and the separator behind it is
      -- not in the mark.
      obtain hw | hrest | ⟨left, right, rfl, hleft, hright⟩ := h
      · exact ⟨w, List.mem_cons_self, hw⟩
      · obtain hprefix | hrest := List.infix_cons_iff.1 hrest
        · cases mark with
          | nil => exact absurd rfl hne
          | cons c mark =>
            obtain rfl : c = g := (List.cons_prefix_cons.1 hprefix).1
            exact absurd List.mem_cons_self hg
        · obtain ⟨v, hv, hoccurs⟩ := ih hrest
          exact ⟨v, List.mem_cons_of_mem w hv, hoccurs⟩
      · cases right with
        | nil =>
          rw [List.append_nil] at *
          exact ⟨w, List.mem_cons_self, hleft.isInfix⟩
        | cons c right =>
          obtain rfl : c = g := (List.cons_prefix_cons.1 hright).1
          exact absurd (List.mem_append_right left List.mem_cons_self) hg

/-- A mark that occurs in none of the words can be kept out of the line by the choice of the
gaps: those that are not in the mark join no occurrence, and a mark with a space does not
occur where there is none. -/
theorem exists_gap_not_infix_joined (hne : mark ≠ []) (hwords : ∀ w ∈ ws, IsWord w)
    (hmark : ∀ w ∈ ws, ¬ mark <:+: w) :
    ∃ g, isWhiteSpace g = true ∧ g ≠ '\n' ∧ ¬ mark <:+: [g].intercalate ws := by
  by_cases hspace : ' ' ∈ mark
  · refine ⟨'\t', by decide, by decide, fun hoccurs => ?_⟩
    exact notMem_joined (by decide) (by decide) hwords (hoccurs.subset hspace)
  · refine ⟨' ', by decide, by decide, fun hoccurs => ?_⟩
    obtain ⟨w, hw, hmarkw⟩ := infix_of_infix_joined hne hspace hoccurs
    exact hmark w hw hmarkw

end TapeMachine.Text
