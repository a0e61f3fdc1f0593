import TapeMachine.Proofs.Text.Joined

/-!
# Where a mark occurs first

What comes before the first occurrence of a mark, when something is put around a line or behind it.
A mark that is put behind a line is not the first in the new line if there was one before, and also
not if one comes about across the end of the line (`Text.Overlaps`).
-/

namespace TapeMachine.Text

variable {mark text a b gap l : List Char}

/-- An end of the line, one space and a beginning of the mark make up the mark: it occurs across the
end of the line when it is put behind it. -/
def Overlaps (mark line : List Char) : Prop :=
  ∃ u v, mark = u ++ ' ' :: v ∧ v <+: mark ∧ u <:+ line

theorem before_self (h : ¬ mark <:+: text) : before mark text = text :=
  cutsBefore_iff.1 (cutsBefore_self h)

theorem before_marked (h : mark <+: text) : before mark text = [] := by
  cases text with
  | nil => rfl
  | cons c text => exact before_marked_cons h

theorem before_append_of_marked (hne : mark ≠ []) (h : mark <:+: a) (b : List Char) :
    before mark (a ++ b) = before mark a := by
  have hcuts := cutsBefore_before mark a
  have hnot := not_infix_of_cutsBefore hne hcuts
  obtain ⟨tail, ha, hmark | rfl, hno⟩ := hcuts
  · refine before_of_cutsBefore ⟨tail ++ b, ?_, .inl (hmark.trans (List.prefix_append _ _)), ?_⟩
    · rw [← List.append_assoc, ← ha]
    · intro pre post hsplit hpost hprefix
      rw [← List.append_assoc] at hprefix
      have hlength := hmark.length_le
      refine hno pre post hsplit hpost (List.prefix_of_prefix_length_le hprefix
        (List.prefix_append _ _) ?_)
      rw [List.length_append]
      omega
  · rw [List.append_nil] at ha
    rw [← ha] at hnot
    exact absurd h hnot

/-- The first occurrence is not behind another one. -/
theorem before_prefix_of_prefix (h : mark <+: b) (a : List Char) : before mark (a ++ b) <+: a := by
  induction a with
  | nil => simp [before_marked h]
  | cons c a ih =>
    rw [List.cons_append]
    by_cases hc : mark <+: c :: (a ++ b)
    · rw [before_marked hc]
      exact List.nil_prefix
    · rw [before_unmarked_cons hc]
      exact List.cons_prefix_cons.2 ⟨rfl, ih⟩

section Trimmed

variable (hne : mark ≠ []) (hbegin : BeginsSolid mark) (hend : BeginsSolid mark.reverse)
include hne

include hbegin in
theorem not_prefix_cons_gap {c : Char} (hc : isWhiteSpace c = true) (text : List Char) :
    ¬ mark <+: c :: text := by
  obtain ⟨d, rest, rfl⟩ := List.exists_cons_of_ne_nil hne
  intro hprefix
  obtain rfl : d = c := (List.cons_prefix_cons.1 hprefix).1
  rw [hbegin d rfl] at hc
  cases hc

include hbegin in
theorem before_gap_append (hg : IsGap gap) (text : List Char) :
    before mark (gap ++ text) = gap ++ before mark text := by
  induction gap with
  | nil => rfl
  | cons c gap ih =>
    obtain ⟨hc, hg⟩ := isGap_cons.1 hg
    rw [List.cons_append, before_unmarked_cons (not_prefix_cons_gap hne hbegin hc _), ih hg,
      List.cons_append]

include hbegin in
theorem infix_of_infix_gap_append (hg : IsGap gap) (h : mark <:+: gap ++ text) :
    mark <:+: text := by
  induction gap with
  | nil => exact h
  | cons c gap ih =>
    obtain ⟨hc, hg⟩ := isGap_cons.1 hg
    obtain hprefix | hrest := List.infix_cons_iff.1 h
    · exact absurd hprefix (not_prefix_cons_gap hne hbegin hc _)
    · exact ih hg hrest

include hend in
theorem infix_of_infix_append_gap (hg : IsGap gap) (h : mark <:+: text ++ gap) :
    mark <:+: text := by
  have hgap : IsGap gap.reverse := fun c hc => hg c (List.mem_reverse.1 hc)
  rw [← List.reverse_infix, List.reverse_append] at h
  rw [← List.reverse_infix]
  exact infix_of_infix_gap_append (by simpa using hne) hend hgap h

include hbegin hend in
/-- White space around a line does not matter for the words in front of the first mark. -/
theorem words_before_of_trims {line content : List Char} (h : Trims line content) :
    words (before mark line) = words (before mark content) := by
  obtain ⟨left, right, rfl, hleft, hright, _⟩ := h
  rw [List.append_assoc, before_gap_append hne hbegin hleft, words_gap_append hleft]
  by_cases hmark : mark <:+: content
  · rw [before_append_of_marked hne hmark]
  · have hnot : ¬ mark <:+: content ++ right :=
      fun h => hmark (infix_of_infix_append_gap hne hend hright h)
    rw [before_self hmark, before_self hnot, words_append_gap hright]

include hend in
theorem before_append_gap (hg : IsGap gap) (hmark : ¬ mark <:+: l) :
    before mark (l ++ gap) = l ++ gap :=
  before_self fun h => hmark (infix_of_infix_append_gap hne hend hg h)

end Trimmed

/-! ## A comment behind a line -/

theorem Overlaps.of_suffix (h : Overlaps mark l) (hsuffix : l <:+ text) : Overlaps mark text := by
  obtain ⟨u, v, hmark, hv, hu⟩ := h
  exact ⟨u, v, hmark, hv, hu.trans hsuffix⟩

theorem not_prefix_commented (hmark : ¬ mark <:+: l) (hover : ¬ Overlaps mark l)
    (rest : List Char) :
    ¬ mark <+: l ++ ' ' :: (mark ++ rest) := by
  intro h
  -- An occurrence at the start of the line ends in it or goes on behind it.
  obtain hshort | ⟨w, rfl⟩ := List.prefix_or_prefix_of_prefix h (List.prefix_append _ _)
  · exact hmark hshort.isInfix
  · cases w with
    | nil =>
      rw [List.append_nil] at hmark
      exact hmark List.infix_rfl
    | cons d v =>
      obtain ⟨rfl, hv⟩ := List.cons_prefix_cons.1 ((List.prefix_append_right_inj l).1 h)
      refine hover ⟨l, v, rfl, ?_, List.suffix_rfl⟩
      refine List.prefix_of_prefix_length_le hv (List.prefix_append _ _) ?_
      simp only [List.length_append, List.length_cons]
      omega

theorem before_commented (hmark : ¬ mark <:+: l) (hover : ¬ Overlaps mark l) (rest : List Char) :
    before mark (l ++ ' ' :: (mark ++ rest)) = l ++ [' '] := by
  induction l with
  | nil =>
    have hfirst := not_prefix_commented hmark hover rest
    rw [List.nil_append] at hfirst ⊢
    rw [before_unmarked_cons hfirst, before_marked (List.prefix_append _ _), List.nil_append]
  | cons c l ih =>
    have hfirst := not_prefix_commented hmark hover rest
    have hmark' : ¬ mark <:+: l := fun h => hmark (h.trans (List.suffix_cons c l).isInfix)
    have hover' : ¬ Overlaps mark l := fun h => hover (h.of_suffix (List.suffix_cons c l))
    rw [List.cons_append] at hfirst ⊢
    rw [before_unmarked_cons hfirst, List.cons_append, ih hmark' hover']

theorem exists_solid_of_beginsSolid {u v : List Char} (h : BeginsSolid (u ++ ' ' :: v)) :
    ∃ c ∈ u, isWhiteSpace c = false := by
  cases u with
  | nil => exact absurd (h ' ' rfl) (by decide)
  | cons c u => exact ⟨c, List.mem_cons_self, h c rfl⟩

theorem not_overlaps_of_isGap (hbegin : BeginsSolid mark) (hl : IsGap l) : ¬ Overlaps mark l := by
  rintro ⟨u, v, rfl, _, hu⟩
  obtain ⟨c, hc, hsolid⟩ := exists_solid_of_beginsSolid hbegin
  rw [hl c (hu.subset hc)] at hsolid
  cases hsolid

/-- An overlapping mark takes characters of the line with it. -/
theorem words_before_commented_ne (hbegin : BeginsSolid mark) (hover : Overlaps mark l)
    (rest : List Char) : words (before mark (l ++ ' ' :: (mark ++ rest))) ≠ words l := by
  obtain ⟨u, v, hsplit, ⟨w, hv⟩, y, rfl⟩ := hover
  obtain ⟨c, hc, hsolid⟩ := exists_solid_of_beginsSolid (hsplit ▸ hbegin)
  have hthere : mark <+: u ++ ' ' :: (mark ++ rest) := by
    have htwice : mark ++ w = u ++ ' ' :: mark :=
      calc mark ++ w = u ++ ' ' :: v ++ w := by rw [← hsplit]
        _ = u ++ ' ' :: mark := by rw [List.append_assoc, List.cons_append, hv]
    refine ⟨w ++ rest, ?_⟩
    rw [← List.append_assoc, htwice, List.append_assoc, List.cons_append]
  have hprefix := before_prefix_of_prefix hthere y
  intro hwords
  -- The characters of `u` are missing in front of the mark.
  have hchars := congrArg (fun ws => ws.flatten.length) hwords
  simp only [flatten_words, List.append_assoc, List.filter_append, List.length_append] at hchars
  have hle := (List.IsPrefix.filter (fun c => !isWhiteSpace c) hprefix).length_le
  have hpos : 0 < (u.filter fun c => !isWhiteSpace c).length :=
    List.length_pos_of_mem (List.mem_filter.2 ⟨hc, by simpa using hsolid⟩)
  omega

end TapeMachine.Text
