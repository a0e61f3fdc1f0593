import TapeMachine.Proofs.Checks
import TapeMachine.Proofs.Text.Words
import TapeMachine.Settings.Check

/-!
# Consistent settings

What it means that settings pass all checks.
-/

namespace TapeMachine.Settings

/-- What settings have to be like for a machine to work with them. -/
structure Consistent (s : Settings) : Prop where
  left : Text.IsWord s.left.toList
  right : Text.IsWord s.right.toList
  left_ne_right : s.left ≠ s.right
  commentMark : ∃ c ∈ s.commentMark.toList, Text.isWhiteSpace c = false
  blank : Text.isWhiteSpace s.blank = false
  initState : Text.IsWord s.initState.toList
  haltState : Text.IsWord s.haltState.toList
  limits : s.maxStates ≠ 0 ∧ s.maxStateLen ≠ 0 ∧ s.maxRulesSize ≠ 0

theorem isWord_iff {text : String} : isWord text = true ↔ Text.IsWord text.toList := by
  simp [isWord, Text.IsWord, Text.IsSolid]

theorem check_eq_ok_iff {s : Settings} : s.check = .ok () ↔ s.Consistent := by
  have hmark : ¬ Text.IsGap s.commentMark.toList ↔
      ∃ c ∈ s.commentMark.toList, Text.isWhiteSpace c = false := by
    simp [Text.IsGap]
  rw [check]
  simp only [Checks.ite_error_eq_ok_iff, List.isEmpty_iff, Text.trim_eq_nil_iff, hmark, isWord_iff,
    Bool.not_eq_true', Bool.not_eq_true, Bool.not_eq_false, Bool.or_eq_true,
    decide_eq_true_eq, not_or,
    and_true]
  constructor
  · rintro ⟨hleft, hright, hne, hmark, hblank, hinit, hhalt, hlimits⟩
    exact ⟨hleft, hright, hne, hmark, hblank, hinit, hhalt, hlimits.1.1, hlimits.1.2, hlimits.2⟩
  · rintro ⟨hleft, hright, hne, hmark, hblank, hinit, hhalt, hstates, hlen, hsize⟩
    exact ⟨hleft, hright, hne, hmark, hblank, hinit, hhalt, ⟨hstates, hlen⟩, hsize⟩

theorem Consistent.commentMark_ne_nil {s : Settings} (h : s.Consistent) :
    s.commentMark.toList ≠ [] := by
  obtain ⟨c, hc, _⟩ := h.commentMark
  exact List.ne_nil_of_mem hc

end TapeMachine.Settings
