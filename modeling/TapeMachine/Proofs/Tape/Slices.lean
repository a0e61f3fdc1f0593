import TapeMachine.Proofs.Tape.Facing
import TapeMachine.Proofs.Text.Padding

/-!
# Slices of a tape

A slice that has everything that is written on the tape can be told in three parts: what is written,
and the blanks on either side of it. So the text of the tape is the slice without its padding
(`Tape.Faces.toList_text_eq_unpadded`).
-/

namespace TapeMachine.Tape

variable {t : Tape} {blank : Char} {lo hi a : Int} {word : List Char}

theorem getElem_slice {i : Nat} (h : i < (t.slice blank lo hi).length) :
    (t.slice blank lo hi)[i] = t.read blank (lo + i) := by
  simp only [slice, List.getElem_map, List.getElem_range]

theorem slice_append {b : Int} (hnext : b = a + 1) (hlo : lo ≤ b) (hhi : a ≤ hi) :
    t.slice blank lo a ++ t.slice blank b hi = t.slice blank lo hi := by
  apply List.ext_getElem
  · simp only [List.length_append, length_slice]
    omega
  · intro i hi hi'
    by_cases hfirst : i < (t.slice blank lo a).length
    · rw [List.getElem_append_left hfirst, getElem_slice, getElem_slice]
    · have hge := Nat.le_of_not_lt hfirst
      have haddress : b + ((i - (t.slice blank lo a).length : Nat) : Int) = lo + i := by
        rw [length_slice] at hge ⊢
        omega
      rw [List.getElem_append_right hge, getElem_slice, getElem_slice, haddress]

theorem slice_eq_replicate {n : Nat} (hn : (n : Int) = hi + 1 - lo)
    (h : ∀ a, lo ≤ a → a ≤ hi → t.read blank a = blank) :
    t.slice blank lo hi = List.replicate n blank := by
  refine List.eq_replicate_iff.2 ⟨?_, fun c hc => ?_⟩
  · rw [length_slice]
    omega
  · obtain ⟨i, hi, rfl⟩ := List.getElem_of_mem hc
    rw [length_slice] at hi
    rw [getElem_slice]
    exact h _ (by omega) (by omega)

/-! ## What is written -/

theorem Canonical.toList_text (hc : t.Canonical blank) (h : t.Spans blank lo hi) :
    (t.text blank).toList = t.slice blank lo hi := by
  obtain ⟨_, hblank⟩ | ⟨lo', hi', hspans, htext⟩ := hc.text_cases
  · exact absurd (hblank lo) h.first
  · obtain ⟨rfl, rfl⟩ := hspans.unique h
    exact htext

theorem faces_slice (h : ∀ a, t.read blank a ≠ blank → lo ≤ a ∧ a ≤ hi) :
    t.Faces blank lo .right [] (t.slice blank lo hi) := by
  refine ⟨fun i => ?_, fun i => ?_⟩
  · rw [Direction.offset, Int.one_mul]
    by_cases hi : i < (t.slice blank lo hi).length
    · rw [List.getD_eq_getElem _ _ hi, getElem_slice]
    · rw [List.getD_eq_default _ _ (Nat.le_of_not_lt hi)]
      rw [length_slice] at hi
      by_contra hne
      have hwritten := h _ hne
      omega
  · rw [Direction.offset, Int.one_mul]
    by_contra hne
    have hwritten := h _ hne
    omega

theorem Faces.eq_slice (h : t.Faces blank a .right [] word) :
    word = t.slice blank a (a + word.length - 1) := by
  apply List.ext_getElem
  · rw [length_slice]
    omega
  · intro i hi hi'
    have hread := h.ahead i
    rw [Direction.offset, Int.one_mul, List.getD_eq_getElem _ _ hi] at hread
    rw [getElem_slice, hread]

theorem Faces.written {b : Int} (h : t.Faces blank a .right [] word) (hb : t.read blank b ≠ blank) :
    a ≤ b ∧ b < a + word.length := by
  rw [h.read_right] at hb
  split at hb
  · by_contra hout
    exact hb (List.getD_eq_default _ _ (by omega))
  · exact absurd rfl hb

/-- The text of a tape has all of what is written, from the first written cell on. -/
theorem Canonical.exists_faces_text (hc : t.Canonical blank) : ∃ a,
    t.Faces blank a .right [] (t.text blank).toList ∧ ∀ lo hi, t.Spans blank lo hi → lo = a := by
  obtain ⟨hempty, hblank⟩ | ⟨lo, hi, hspans, htext⟩ := hc.text_cases
  · have hnothing : (t.text blank).toList = t.slice blank 0 (-1) := by
      rw [hempty]
      rfl
    refine ⟨0, ?_, fun lo hi hspans => absurd (hblank lo) hspans.first⟩
    rw [hnothing]
    exact faces_slice fun a ha => absurd (hblank a) ha
  · refine ⟨lo, ?_, fun lo' hi' hspans' => (hspans'.unique hspans).1⟩
    rw [htext]
    exact faces_slice hspans.between

/-- There are blanks around a slice that has all of what is written. -/
theorem slice_eq_padded {first last : Int} {left right : Nat} (hle : first ≤ last)
    (h : ∀ a, t.read blank a ≠ blank → first ≤ a ∧ a ≤ last) (hleft : (left : Int) = first - lo)
    (hright : (right : Int) = hi - last) : t.slice blank lo hi =
      List.replicate left blank ++ t.slice blank first last ++ List.replicate right blank := by
  have hbefore : t.slice blank lo (first - 1) = List.replicate left blank :=
    slice_eq_replicate (by omega) fun b _ hb => by
      by_contra hne
      have hwritten := h b hne
      omega
  have hafter : t.slice blank (last + 1) hi = List.replicate right blank :=
    slice_eq_replicate (by omega) fun b hb _ => by
      by_contra hne
      have hwritten := h b hne
      omega
  rw [← hbefore, ← hafter, slice_append (by omega) (by omega) (by omega),
    slice_append rfl (by omega) (by omega)]

/-- The text of a tape is any word that has all of what is written, without the blanks at its
ends. -/
theorem Faces.toList_text_eq_unpadded (hc : t.Canonical blank)
    (h : t.Faces blank a .right [] word) :
    (t.text blank).toList = Text.unpadded blank word := by
  have hword := h.eq_slice
  obtain ⟨hempty, hblank⟩ | ⟨lo, hi, hspans, htext⟩ := hc.text_cases
  · have hpadding : word = List.replicate 0 blank ++ [] ++ List.replicate word.length blank := by
      have hlength : (word.length : Int) = a + word.length - 1 + 1 - a := by omega
      rw [List.append_nil, List.replicate_zero, List.nil_append,
        ← slice_eq_replicate hlength fun a _ _ => hblank a]
      exact hword
    rw [hpadding, Text.unpadded_padded (by simp) (by simp), hempty]
    rfl
  · have hfirst := h.written hspans.first
    have hlast := h.written hspans.last
    have hends := hspans.le
    have hleft : ((lo - a).toNat : Int) = lo - a := by omega
    have hright : ((a + word.length - 1 - hi).toNat : Int) = a + word.length - 1 - hi := by omega
    rw [hword, slice_eq_padded hends hspans.between hleft hright, Text.unpadded_padded, htext]
    · intro c hc
      rw [head?_slice hends] at hc
      obtain rfl := Option.some.inj hc
      exact hspans.first
    · intro c hc
      rw [getLast?_slice hends] at hc
      obtain rfl := Option.some.inj hc
      exact hspans.last

end TapeMachine.Tape
