import Mathlib.Data.List.DropRight
import Mathlib.Data.List.GetD

/-!
# Padded texts

A text can be padded on both sides with a symbol that says nothing. `Text.unpadded` takes the
padding away again, and `Text.unpaddedEnd` does so at the end only. If the padding after two texts
goes on for ever, they have the same symbols everywhere just if they differ in the padding at their
ends (`Text.unpaddedEnd_eq_iff`).
-/

namespace TapeMachine.Text

/-- The text without the padding at its end. -/
def unpaddedEnd (pad : Char) (text : List Char) : List Char :=
  text.rdropWhile (· = pad)

/-- The text without the padding at its two ends. -/
def unpadded (pad : Char) (text : List Char) : List Char :=
  unpaddedEnd pad (text.dropWhile (· = pad))

variable {pad : Char} {text other : List Char}

/-! ## Padding at the end -/

theorem unpaddedEnd_append_replicate (pad : Char) (text : List Char) (n : Nat) :
    unpaddedEnd pad (text ++ List.replicate n pad) = unpaddedEnd pad text := by
  induction n with
  | zero => rw [List.replicate_zero, List.append_nil]
  | succ n ih =>
    rw [List.replicate_succ', ← List.append_assoc, unpaddedEnd, List.rdropWhile_concat_pos]
    · exact ih
    · exact decide_eq_true rfl

theorem exists_eq_append_replicate (pad : Char) (text : List Char) :
    ∃ n, text = unpaddedEnd pad text ++ List.replicate n pad := by
  let padding := text.rtakeWhile (· = pad)
  have hpadding : padding = List.replicate padding.length pad := by
    refine List.eq_replicate_iff.2 ⟨rfl, fun c hc => ?_⟩
    simpa using List.mem_rtakeWhile_imp hc
  refine ⟨padding.length, ?_⟩
  rw [← hpadding]
  exact List.rdropWhile_append_rtakeWhile.symm

theorem getLast?_unpaddedEnd (pad : Char) (text : List Char) :
    ∀ c ∈ (unpaddedEnd pad text).getLast?, c ≠ pad := by
  intro c hc
  obtain ⟨hne, rfl⟩ := List.mem_getLast?_eq_getLast hc
  have hlast := List.rdropWhile_last_not (· = pad) text hne
  rw [decide_eq_true_eq] at hlast
  exact hlast

theorem unpaddedEnd_of_getLast? (h : ∀ c ∈ text.getLast?, c ≠ pad) :
    unpaddedEnd pad text = text := by
  refine List.rdropWhile_eq_self_iff.2 fun hne => ?_
  rw [decide_eq_true_eq]
  exact h _ (List.getLast_mem_getLast? hne)

theorem getD_unpaddedEnd (pad : Char) (text : List Char) (n : Nat) :
    (unpaddedEnd pad text).getD n pad = text.getD n pad := by
  obtain ⟨k, hk⟩ := exists_eq_append_replicate pad text
  conv_rhs => rw [hk]
  by_cases hn : n < (unpaddedEnd pad text).length
  · rw [List.getD_append _ _ _ _ hn]
  · have hle := Nat.le_of_not_lt hn
    rw [List.getD_append_right _ _ _ _ hle, List.getD_eq_default _ _ hle]
    by_cases hk : n - (unpaddedEnd pad text).length < k
    · rw [List.getD_replicate _ hk]
    · rw [List.getD_eq_default]
      rw [List.length_replicate]
      exact Nat.le_of_not_lt hk

/-- Without the padding at its end a text is no longer than its last other symbol. -/
theorem length_unpaddedEnd_le {n : Nat} (h : ∀ i, n ≤ i → text.getD i pad = pad) :
    (unpaddedEnd pad text).length ≤ n := by
  by_contra hlt
  have hlast : (unpaddedEnd pad text).getLast? = some pad := by
    rw [List.getLast?_eq_getElem?, List.getElem?_eq_getElem (by omega),
      ← List.getD_eq_getElem _ pad (by omega), getD_unpaddedEnd, h _ (by omega)]
  exact getLast?_unpaddedEnd pad text pad hlast rfl

theorem unpaddedEnd_eq_iff :
    unpaddedEnd pad text = unpaddedEnd pad other ↔ ∀ n, text.getD n pad = other.getD n pad := by
  constructor
  · intro h n
    rw [← getD_unpaddedEnd, h, getD_unpaddedEnd]
  · intro h
    -- Neither of the two can go on where the other has ended.
    have hle : (unpaddedEnd pad text).length ≤ (unpaddedEnd pad other).length :=
      length_unpaddedEnd_le fun i hi => by
        rw [h, ← getD_unpaddedEnd, List.getD_eq_default _ _ hi]
    have hge : (unpaddedEnd pad other).length ≤ (unpaddedEnd pad text).length :=
      length_unpaddedEnd_le fun i hi => by
        rw [← h, ← getD_unpaddedEnd, List.getD_eq_default _ _ hi]
    apply List.ext_getElem (Nat.le_antisymm hle hge)
    intro i hi hi'
    rw [← List.getD_eq_getElem _ pad hi, ← List.getD_eq_getElem _ pad hi', getD_unpaddedEnd,
      getD_unpaddedEnd, h]

/-! ## Padding at both ends -/

theorem unpadded_padded (hfirst : ∀ c ∈ text.head?, c ≠ pad) (hlast : ∀ c ∈ text.getLast?, c ≠ pad)
    (i j : Nat) : unpadded pad (List.replicate i pad ++ text ++ List.replicate j pad) = text := by
  have hleft : ∀ c ∈ List.replicate i pad, decide (c = pad) = true := by
    intro c hc
    exact decide_eq_true (List.eq_of_mem_replicate hc)
  rw [unpadded, List.append_assoc, List.dropWhile_append_of_pos hleft]
  cases text with
  | nil =>
    rw [List.nil_append, List.dropWhile_replicate, if_pos (decide_eq_true rfl)]
    rfl
  | cons c text =>
    have hc : c ≠ pad := hfirst c rfl
    rw [List.cons_append, List.dropWhile_cons_of_neg (by simpa using hc), ← List.cons_append,
      unpaddedEnd_append_replicate, unpaddedEnd_of_getLast? hlast]

end TapeMachine.Text
