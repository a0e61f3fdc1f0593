import TapeMachine.Text.Lines

/-!
# The lines of a text and what comes before a mark

`Text.lines` undoes the joining of lines by line feeds (`Text.isLines_iff`), and `Text.before` gives
the part of a text that no occurrence of the mark begins in (`Text.cutsBefore_iff`).
-/

namespace TapeMachine.Text

/-- The lines `ls`, with a line feed between any two, make up the text. -/
def IsLines (text : List Char) (ls : List (List Char)) : Prop :=
  ls ≠ [] ∧ (∀ l ∈ ls, '\n' ∉ l) ∧ ['\n'].intercalate ls = text

/-- `head` is `text` up to the first occurrence of `mark`, or all of it if there is none. -/
def CutsBefore (mark text head : List Char) : Prop :=
  ∃ tail, text = head ++ tail ∧ (mark <+: tail ∨ tail = []) ∧
    ∀ pre post, head = pre ++ post → post ≠ [] → ¬ mark <+: post ++ tail

/-! ## Lines -/

theorem lines_cons (c : Char) (text : List Char) :
    lines (c :: text) =
      if c = '\n' then [] :: lines text else (lines text).modifyHead (c :: ·) := by
  simp only [lines, List.foldr_cons, splitLine]
  split <;> rfl

theorem lines_eq_splitOn (text : List Char) : lines text = text.splitOn '\n' := by
  induction text with
  | nil => rfl
  | cons c text ih =>
    rw [lines_cons, List.splitOn_cons_eq_if_modifyHead, ih]
    simp only [beq_iff_eq]

theorem lines_ne_nil (text : List Char) : lines text ≠ [] :=
  List.cons_ne_nil _ _

theorem newline_notMem_of_mem_lines (text : List Char) : ∀ l ∈ lines text, '\n' ∉ l := by
  induction text with
  | nil => simp [lines]
  | cons c text ih =>
    rw [lines_cons]
    split
    · intro l hl
      obtain rfl | hl := List.mem_cons.1 hl
      · exact List.not_mem_nil
      · exact ih l hl
    · rename_i hc
      cases hls : lines text with
      | nil => exact absurd hls (lines_ne_nil text)
      | cons first rest =>
        rw [hls] at ih
        rw [List.modifyHead_cons]
        intro l hl
        obtain rfl | hl := List.mem_cons.1 hl
        · simpa [Ne.symm hc] using ih first List.mem_cons_self
        · exact ih l (List.mem_cons_of_mem _ hl)

theorem isLines_iff {text : List Char} {ls : List (List Char)} :
    IsLines text ls ↔ lines text = ls := by
  rw [lines_eq_splitOn]
  constructor
  · rintro ⟨hne, hclean, rfl⟩
    exact List.splitOn_intercalate '\n' hclean hne
  · rintro rfl
    refine ⟨List.splitOn_ne_nil _ _, ?_, List.intercalate_splitOn '\n'⟩
    rw [← lines_eq_splitOn]
    exact newline_notMem_of_mem_lines text

theorem lines_injective {text other : List Char} (h : lines text = lines other) : text = other := by
  rw [← (isLines_iff.2 rfl : IsLines text _).2.2, h]
  exact (isLines_iff.2 rfl).2.2

theorem lines_of_notMem {l : List Char} (h : '\n' ∉ l) : lines l = [l] :=
  isLines_iff.1 ⟨List.cons_ne_nil _ _, by simpa using h, List.intercalate_singleton⟩

theorem lines_append_newline (a b : List Char) : lines (a ++ '\n' :: b) = lines a ++ lines b := by
  induction a with
  | nil => rw [List.nil_append, lines_cons, if_pos rfl]; rfl
  | cons c a ih =>
    rw [List.cons_append, lines_cons, lines_cons, ih]
    split
    · rfl
    · cases hlines : lines a with
      | nil => exact absurd hlines (lines_ne_nil a)
      | cons first rest => rfl

theorem lines_joined {ls : List (List Char)} (hne : ls ≠ []) :
    lines (['\n'].intercalate ls) = ls.flatMap lines := by
  induction ls with
  | nil => exact absurd rfl hne
  | cons l ls ih =>
    cases ls with
    | nil => simp
    | cons l' ls =>
      rw [List.intercalate_cons_cons, List.append_assoc, List.singleton_append,
        lines_append_newline, ih (List.cons_ne_nil _ _), List.flatMap_cons, List.flatMap_cons,
        List.flatMap_cons]

/-- Every line feed ends a line, and the text ends the last one. -/
theorem length_lines (text : List Char) : (lines text).length = text.count '\n' + 1 := by
  induction text with
  | nil => rfl
  | cons c text ih =>
    rw [lines_cons]
    split
    · rename_i hc
      rw [List.length_cons, ih, hc, List.count_cons_self]
    · rename_i hc
      rw [List.length_modifyHead, ih, List.count_cons_of_ne hc]

theorem flatMap_lines {ls : List (List Char)} (h : ∀ l ∈ ls, '\n' ∉ l) : ls.flatMap lines = ls := by
  induction ls with
  | nil => rfl
  | cons l ls ih =>
    obtain ⟨hl, hls⟩ := List.forall_mem_cons.1 h
    rw [List.flatMap_cons, lines_of_notMem hl, ih hls, List.singleton_append]

/-! ## Marks -/

variable {mark : List Char}

theorem cutBefore_eq (seen text : List Char) :
    cutBefore mark seen text = seen.reverse ++ before mark text := by
  induction text generalizing seen with
  | nil => simp [before, cutBefore]
  | cons c text ih =>
    rw [before, cutBefore, cutBefore]
    split
    · simp
    · rw [ih (c :: seen), ih [c]]
      simp

theorem before_marked_cons {c : Char} {text : List Char} (h : mark <+: c :: text) :
    before mark (c :: text) = [] := by
  rw [before, cutBefore, if_pos (List.isPrefixOf_iff_prefix.2 h), List.reverse_nil]

theorem before_unmarked_cons {c : Char} {text : List Char} (h : ¬ mark <+: c :: text) :
    before mark (c :: text) = c :: before mark text := by
  rw [before, cutBefore, if_neg fun hp => h (List.isPrefixOf_iff_prefix.1 hp), cutBefore_eq]
  rfl

theorem cutsBefore_before (mark text : List Char) : CutsBefore mark text (before mark text) := by
  induction text with
  | nil =>
    exact ⟨[], rfl, .inr rfl, fun pre post h hne => absurd (List.append_eq_nil_iff.1 h.symm).2 hne⟩
  | cons c text ih =>
    by_cases h : mark <+: c :: text
    · rw [before_marked_cons h]
      exact ⟨c :: text, rfl, .inl h,
        fun pre post h hne => absurd (List.append_eq_nil_iff.1 h.symm).2 hne⟩
    · obtain ⟨tail, htext, hmark, hno⟩ := ih
      rw [before_unmarked_cons h]
      refine ⟨tail, by rw [List.cons_append, ← htext], hmark, ?_⟩
      intro pre post hsplit hne
      -- The mark does not begin at `c`, and where it may begin later is told by `hno`.
      cases pre with
      | nil =>
        rw [List.nil_append] at hsplit
        rwa [← hsplit, List.cons_append, ← htext]
      | cons d pre =>
        rw [List.cons_append, List.cons.injEq] at hsplit
        exact hno pre post hsplit.2 hne

theorem before_of_cutsBefore {text head : List Char} (h : CutsBefore mark text head) :
    before mark text = head := by
  obtain ⟨tail, rfl, hmark, hno⟩ := h
  induction head with
  | nil =>
    rw [List.nil_append]
    cases tail with
    | nil => rfl
    | cons c tail =>
      obtain hmark | hnil := hmark
      · exact before_marked_cons hmark
      · cases hnil
  | cons c head ih =>
    have hfirst : ¬ mark <+: c :: (head ++ tail) := hno [] (c :: head) rfl (List.cons_ne_nil _ _)
    rw [List.cons_append, before_unmarked_cons hfirst, ih]
    intro pre post hsplit hne
    exact hno (c :: pre) post (by rw [hsplit, List.cons_append]) hne

theorem cutsBefore_iff {text head : List Char} :
    CutsBefore mark text head ↔ before mark text = head := by
  constructor
  · exact before_of_cutsBefore
  · rintro rfl
    exact cutsBefore_before mark text

end TapeMachine.Text
