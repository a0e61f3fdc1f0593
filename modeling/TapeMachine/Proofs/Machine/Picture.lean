import TapeMachine.Machine.Render
import TapeMachine.Proofs.Machine.Reach
import TapeMachine.Proofs.Tape.Extent
import TapeMachine.Proofs.Text.Lines

/-!
# What a picture shows

The row of cells of a picture may take up several lines, since a line feed can stand on a
tape, but the caret and the state have a line each (`Machine.lines_render`). As long as the
ends of the row are addresses (`Machine.WithinAddresses`), the caret is as far from the left
as the cell under the head.
-/

namespace TapeMachine.Machine

open Text

/-- The ends of the row that `window` asks for are addresses. -/
structure RowWithinAddresses (m : Machine) (window : UInt64) : Prop where
  low : -(UInt64.size : Int) ≤ 2 * (m.low - m.reach window)
  high : 2 * (m.high + m.reach window) < UInt64.size

/-- The ends of the row that `window` asks for are addresses, and so is what lies left of the head
in it. -/
structure WithinAddresses (m : Machine) (window : UInt64) : Prop where
  low : -(UInt64.size : Int) ≤ 2 * (m.low - m.reach window)
  high : 2 * (m.high + m.reach window) < UInt64.size
  offset : 2 * (m.now.head - (m.low - m.reach window)) < UInt64.size

/-- The head and all that is written lie between the `k`th address on the left of 0 and
the `n`th on the right. -/
structure StaysWithin (m : Machine) (k n : Nat) : Prop where
  canonical : m.now.tape.Canonical m.settings.blank
  head : -(k : Int) ≤ m.now.head ∧ m.now.head ≤ n
  written : ∀ a, m.now.tape.read m.settings.blank a ≠ m.settings.blank → -(k : Int) ≤ a ∧ a ≤ n

variable {m m' : Machine} {window : UInt64}

/-! ## Lines -/

theorem toList_render (m : Machine) (window : UInt64) : (m.render window).toList =
    m.row window ++ '\n' ::
      (List.replicate (m.caret window) ' ' ++ ['^'] ++ '\n' :: m.now.state.toList) := by
  simp [render]

/-- The cells first, then the caret, then the state. -/
theorem lines_render (hstate : '\n' ∉ m.now.state.toList) (window : UInt64) :
    lines (m.render window).toList = lines (m.row window) ++
      [List.replicate (m.caret window) ' ' ++ ['^'], m.now.state.toList] := by
  have hcaret : '\n' ∉ List.replicate (m.caret window) ' ' ++ ['^'] := by simp
  rw [toList_render, lines_append_newline, lines_append_newline, lines_of_notMem hcaret,
    lines_of_notMem hstate, List.singleton_append]

/-! ## The caret -/

theorem reach_nonneg (m : Machine) (window : UInt64) : 0 ≤ m.reach window := by
  rw [reach]
  split
  · omega
  · decide

theorem low_le_head (m : Machine) : m.low ≤ m.now.head := by
  rw [low]
  cases m.now.tape.first? with
  | none => exact Int.le_refl _
  | some lo => exact Int.min_le_right lo m.now.head

theorem head_le_high (m : Machine) : m.now.head ≤ m.high := by
  rw [high]
  cases m.now.tape.last? with
  | none => exact Int.le_refl _
  | some hi => exact Int.le_max_right hi m.now.head

namespace RowWithinAddresses

variable (h : m.RowWithinAddresses window)
include h

theorem leftEnd_eq : m.leftEnd window = m.low - m.reach window := by
  have hlow := m.low_le_head
  have hhigh := m.head_le_high
  have hreach := m.reach_nonneg window
  have hend := h.high
  exact address_of_mem h.low (by omega)

theorem rightEnd_eq : m.rightEnd window = m.high + m.reach window := by
  have hlow := m.low_le_head
  have hhigh := m.head_le_high
  have hreach := m.reach_nonneg window
  have hend := h.low
  exact address_of_mem (by omega) h.high

end RowWithinAddresses

namespace WithinAddresses

variable (h : m.WithinAddresses window)
include h

theorem row : m.RowWithinAddresses window :=
  ⟨h.low, h.high⟩

theorem caret_eq : m.caret window = (m.now.head - (m.low - m.reach window)).toNat := by
  have hlow := m.low_le_head
  have hreach := m.reach_nonneg window
  rw [caret, h.row.leftEnd_eq, address_of_mem (by omega) h.offset]

theorem natCast_caret : (m.caret window : Int) = m.now.head - (m.low - m.reach window) := by
  have hlow := m.low_le_head
  have hreach := m.reach_nonneg window
  rw [h.caret_eq, Int.toNat_of_nonneg (by omega)]

/-- The caret stands under the cell of the head. -/
theorem getElem?_row : (m.row window)[m.caret window]? = some m.symbol := by
  have hlow := m.low_le_head
  have hhigh := m.head_le_high
  have hreach := m.reach_nonneg window
  rw [Machine.row, h.caret_eq, h.row.leftEnd_eq, h.row.rightEnd_eq]
  exact Tape.getElem?_slice (by omega) (by omega)

end WithinAddresses

/-! ## Where a run can get -/

theorem staysWithin_of_ofInput {s : Settings} {t : Table} {input : String}
    (h : ofInput s t input = .ok m) :
    m.StaysWithin 0 input.length := by
  obtain rfl := now_of_ofInput h
  refine ⟨Tape.canonical_ofInput s.blank input, ⟨Int.le_refl 0, Int.natCast_nonneg _⟩,
    fun a ha => ?_⟩
  have hnonneg := (Tape.getElem?_of_read_ofInput_ne ha).1
  have hlt := Tape.lt_length_of_read_ofInput_ne ha
  omega

namespace StaysWithin

variable {k n : Nat}

theorem applies (h : m.StaysWithin k n) (ha : m.Applies m') : m'.StaysWithin (k + 1) (n + 1) := by
  have hcanonical := ha.canonical h.canonical
  obtain ⟨_, a, _, rfl⟩ := ha
  have hhead := h.head
  refine ⟨hcanonical, ?_, fun b hb => ?_⟩
  · show -((k + 1 : Nat) : Int) ≤ m.now.head + a.direction.offset ∧
      m.now.head + a.direction.offset ≤ ((n + 1 : Nat) : Int)
    cases a.direction <;> simp only [Direction.offset] <;> omega
  · dsimp only at hb
    rw [read_apply] at hb
    split at hb
    · omega
    · have hwritten := h.written b hb
      omega

theorem reachesIn {i : Nat} (h : m.StaysWithin k n) (hr : m.ReachesIn i m') :
    m'.StaysWithin (k + i) (n + i) := by
  induction hr with
  | zero => exact h
  | step _ ha ih => exact ih.applies ha

theorem low_le (h : m.StaysWithin k n) : -(k : Int) ≤ m.low := by
  have hhead := h.head
  rw [low]
  cases hfirst : m.now.tape.first? with
  | none => exact hhead.1
  | some lo =>
    have hlo := h.written lo (h.canonical.first?_eq_some_iff.1 hfirst).1
    exact Int.le_min.2 ⟨hlo.1, hhead.1⟩

theorem le_high (h : m.StaysWithin k n) : m.high ≤ n := by
  have hhead := h.head
  rw [high]
  cases hlast : m.now.tape.last? with
  | none => exact hhead.2
  | some hi =>
    have hhi := h.written hi (h.canonical.last?_eq_some_iff.1 hlast).1
    exact Int.max_le.2 ⟨hhi.2, hhead.2⟩

/-- Where there is room for what lies left of address 0, what lies right of it and the window twice,
the ends of the row are addresses. -/
theorem withinAddresses (h : m.StaysWithin k n)
    (hroom : 2 * (k + n + m.reach window) < UInt64.size) : m.WithinAddresses window := by
  have hlow := h.low_le
  have hhigh := h.le_high
  have hhead := h.head
  have hreach := m.reach_nonneg window
  exact ⟨by omega, by omega, by omega⟩

end StaysWithin

end TapeMachine.Machine
