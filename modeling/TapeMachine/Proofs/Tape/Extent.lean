import TapeMachine.Proofs.Tape.Canonical

/-!
# The written part of a tape

A canonical tape stores the cells that do not read as blank, so its first and its last stored cell
are the ends of what is written on it (`Tape.Spans`), and its text is what stands from the one to
the other. On the tape of an input this is the input without the blanks at its ends.
-/

namespace TapeMachine.Tape

/-- `lo` is the first and `hi` the last address that does not read as blank. -/
structure Spans (t : Tape) (blank : Char) (lo hi : Int) : Prop where
  first : t.read blank lo ≠ blank
  last : t.read blank hi ≠ blank
  between : ∀ a, t.read blank a ≠ blank → lo ≤ a ∧ a ≤ hi

variable {t : Tape} {blank : Char} {lo hi a : Int}

theorem Spans.le (h : t.Spans blank lo hi) : lo ≤ hi :=
  (h.between lo h.first).2

/-! ## Slices -/

theorem length_slice (t : Tape) (blank : Char) (lo hi : Int) :
    (t.slice blank lo hi).length = (hi + 1 - lo).toNat := by
  rw [slice, List.length_map, List.length_range]

theorem getElem?_slice (hlo : lo ≤ a) (hhi : a ≤ hi) :
    (t.slice blank lo hi)[(a - lo).toNat]? = some (t.read blank a) := by
  have haddress : lo + ((a - lo).toNat : Int) = a := by omega
  rw [slice, List.getElem?_map, List.getElem?_range (by omega), Option.map_some, haddress]

theorem exists_read_of_mem_slice {c : Char} (h : c ∈ t.slice blank lo hi) :
    ∃ a, t.read blank a = c := by
  obtain ⟨i, _, hi⟩ := List.mem_map.1 h
  exact ⟨_, hi⟩

theorem head?_slice (h : lo ≤ hi) : (t.slice blank lo hi).head? = some (t.read blank lo) := by
  rw [List.head?_eq_getElem?, ← getElem?_slice (Int.le_refl lo) h, Int.sub_self]
  rfl

theorem getLast?_slice (h : lo ≤ hi) : (t.slice blank lo hi).getLast? = some (t.read blank hi) := by
  have hlast : (hi + 1 - lo).toNat - 1 = (hi - lo).toNat := by omega
  rw [List.getLast?_eq_getElem?, length_slice, hlast, getElem?_slice h (Int.le_refl hi)]

/-! ## The ends of a canonical tape -/

section Canonical

variable (ht : t.Canonical blank)
include ht

theorem Canonical.mem_cells_iff : a ∈ t.cells ↔ t.read blank a ≠ blank := by
  rw [Std.ExtTreeMap.mem_iff_isSome_getElem?, ht.getElem?_eq]
  split
  · rename_i hblank
    simp [hblank]
  · rename_i hne
    simp [hne]

theorem Canonical.first?_eq_some_iff :
    t.first? = some lo ↔ t.read blank lo ≠ blank ∧ ∀ a, t.read blank a ≠ blank → lo ≤ a := by
  simp only [first?, Std.ExtTreeMap.minKey?_eq_some_iff_mem_and_forall, ht.mem_cells_iff,
    Std.isLE_compare]

theorem Canonical.last?_eq_some_iff :
    t.last? = some hi ↔ t.read blank hi ≠ blank ∧ ∀ a, t.read blank a ≠ blank → a ≤ hi := by
  simp only [last?, Std.ExtTreeMap.maxKey?_eq_some_iff_mem_and_forall, ht.mem_cells_iff,
    Std.isLE_compare]

/-- Either nothing is written, or the tape has a first and a last written cell. -/
theorem Canonical.ends_cases :
    (t.first? = none ∧ t.last? = none ∧ ∀ a, t.read blank a = blank) ∨
    ∃ lo hi, t.first? = some lo ∧ t.last? = some hi ∧ t.Spans blank lo hi := by
  cases hfirst : t.first? with
  | none =>
    left
    have hempty : t.cells = ∅ := Std.ExtTreeMap.minKey?_eq_none_iff.1 hfirst
    refine ⟨rfl, Std.ExtTreeMap.maxKey?_eq_none_iff.2 hempty, fun a => ?_⟩
    simp [read, hempty]
  | some lo =>
    right
    obtain ⟨hlo, hleast⟩ := ht.first?_eq_some_iff.1 hfirst
    cases hlast : t.last? with
    | none =>
      have hempty : t.cells = ∅ := Std.ExtTreeMap.maxKey?_eq_none_iff.1 hlast
      exact absurd (by simp [read, hempty]) hlo
    | some hi =>
      obtain ⟨hhi, hgreatest⟩ := ht.last?_eq_some_iff.1 hlast
      exact ⟨lo, hi, rfl, rfl, hlo, hhi, fun a ha => ⟨hleast a ha, hgreatest a ha⟩⟩

/-- The text of a tape is empty, or it is what is written from the first to the last written
cell. -/
theorem Canonical.text_cases :
    (t.text blank = "" ∧ ∀ a, t.read blank a = blank) ∨
    ∃ lo hi, t.Spans blank lo hi ∧ (t.text blank).toList = t.slice blank lo hi := by
  obtain ⟨hfirst, hlast, hblank⟩ | ⟨lo, hi, hfirst, hlast, hspans⟩ := ht.ends_cases
  · exact .inl ⟨by rw [text, hfirst], hblank⟩
  · exact .inr ⟨lo, hi, hspans, by rw [text, hfirst, hlast, String.toList_ofList]⟩

theorem Canonical.text_eq_empty_iff : t.text blank = "" ↔ ∀ a, t.read blank a = blank := by
  obtain ⟨htext, hblank⟩ | ⟨lo, hi, hspans, htext⟩ := ht.text_cases
  · exact ⟨fun _ => hblank, fun _ => htext⟩
  · constructor
    · intro hempty
      have hlength := t.length_slice blank lo hi
      rw [← htext, hempty] at hlength
      have hle := hspans.le
      simp at hlength
      omega
    · intro hblank
      exact absurd (hblank lo) hspans.first

theorem Canonical.length_text_le (h : ∀ a, t.read blank a ≠ blank → lo ≤ a ∧ a < hi) :
    (t.text blank).length ≤ (hi - lo).toNat := by
  obtain ⟨hempty, _⟩ | ⟨first, last, hspans, htext⟩ := ht.text_cases
  · rw [hempty, String.length_empty]
    exact Nat.zero_le _
  · have hfirst := h first hspans.first
    have hlast := h last hspans.last
    rw [← String.length_toList, htext, length_slice]
    omega

end Canonical

/-! ## The tape of an input -/

section Input

variable {input : String} {c : Char}

theorem read_ofInput {n : Nat} (h : input.toList[n]? = some c) (blank : Char) :
    (ofInput blank input).read blank n = c := by
  rw [ofInput, read_writeAll, if_pos (Int.natCast_nonneg n), Int.sub_zero, Int.toNat_natCast, h,
    Option.getD_some]

/-- What is written on the tape of an input is the input's own. -/
theorem getElem?_of_read_ofInput_ne (h : (ofInput blank input).read blank a ≠ blank) :
    0 ≤ a ∧ input.toList[a.toNat]? = some ((ofInput blank input).read blank a) := by
  rw [ofInput, read_writeAll, read_empty, Int.sub_zero] at h ⊢
  by_cases ha : 0 ≤ a
  · rw [if_pos ha] at h ⊢
    cases hc : input.toList[a.toNat]? with
    | none => exact absurd (by rw [hc, Option.getD_none]) h
    | some c => exact ⟨ha, by rw [Option.getD_some]⟩
  · exact absurd (by rw [if_neg ha, Option.getD_none]) h

theorem lt_length_of_read_ofInput_ne (h : (ofInput blank input).read blank a ≠ blank) :
    a < input.length := by
  obtain ⟨hnonneg, hget⟩ := getElem?_of_read_ofInput_ne h
  have hlt := (List.getElem?_eq_some_iff.1 hget).1
  rw [String.length_toList] at hlt
  omega

theorem first?_ofInput (h : input.toList[0]? = some c) (hc : c ≠ blank) :
    (ofInput blank input).first? = some 0 := by
  refine (canonical_ofInput blank input).first?_eq_some_iff.2 ⟨?_, fun a ha => ?_⟩
  · rwa [← Int.ofNat_zero, read_ofInput h]
  · exact (getElem?_of_read_ofInput_ne ha).1

theorem last?_ofInput {n : Nat} (hn : input.length = n + 1) (h : input.toList[n]? = some c)
    (hc : c ≠ blank) : (ofInput blank input).last? = some (n : Int) := by
  refine (canonical_ofInput blank input).last?_eq_some_iff.2 ⟨?_, fun a ha => ?_⟩
  · rwa [read_ofInput h]
  · have hlt := lt_length_of_read_ofInput_ne ha
    omega

end Input

/-! ## The number of stored cells -/

theorem size_write_le (t : Tape) (blank : Char) (a : Int) (c : Char) :
    (t.write blank a c).size ≤ t.size + 1 := by
  rw [write]
  split
  · exact Nat.le_succ_of_le Std.ExtTreeMap.size_erase_le
  · exact Std.ExtTreeMap.size_insert_le

theorem size_writeAll_le (t : Tape) (blank : Char) (a : Int) (symbols : List Char) :
    (t.writeAll blank a symbols).size ≤ t.size + symbols.length := by
  induction symbols generalizing t a with
  | nil => exact Nat.le_refl _
  | cons c rest ih =>
    have hfirst := t.size_write_le blank a c
    have hrest := ih (t.write blank a c) (a + 1)
    rw [writeAll, List.length_cons]
    omega

theorem size_ofInput_le (blank : Char) (input : String) :
    (ofInput blank input).size ≤ input.length := by
  have hempty : empty.size = 0 := Std.ExtTreeMap.size_empty
  have hsize := empty.size_writeAll_le blank 0 input.toList
  rwa [hempty, Nat.zero_add, String.length_toList] at hsize

end TapeMachine.Tape
