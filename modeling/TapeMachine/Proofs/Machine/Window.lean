import Mathlib.Order.Bounds.Basic
import Mathlib.Data.Int.Order.Basic
import TapeMachine.Proofs.Machine.Operations
import TapeMachine.Proofs.Machine.Picture
import TapeMachine.Proofs.Tape.Slices

/-!
# The window of a picture

The row of a picture has the cells that are written and the one under the head, those between them,
and as many blanks on either side as the window asks for. So the text of the tape can be read off
the row, and the head is found by the caret.

## Main definitions

- `Machine.occupied`: the cells that a picture has to show
- `Machine.IsAddress`: the numbers that are addresses

## Main result

- `Machine.picture_shows_window`: what stands where in a picture, for every window
-/

namespace TapeMachine.Machine

/-- The addresses of the cells that are written and of the one under the head. -/
def occupied (m : Machine) : Set Int :=
  {a | m.now.tape.read m.settings.blank a ≠ m.settings.blank} ∪ {m.now.head}

/-- A number that a signed 64-bit word can hold. -/
def IsAddress (n : Int) : Prop :=
  -(UInt64.size : Int) ≤ 2 * n ∧ 2 * n < UInt64.size

instance (n : Int) : Decidable (IsAddress n) :=
  inferInstanceAs (Decidable (_ ∧ _))

variable {m : Machine} {window : UInt64}

/-! ## What has to be shown -/

theorem occupied_of_blank (h : ∀ a, m.now.tape.read m.settings.blank a = m.settings.blank) :
    m.occupied = {m.now.head} := by
  rw [occupied, Set.union_eq_right]
  intro a ha
  exact absurd (h a) ha

section Canonical

variable (hc : m.now.tape.Canonical m.settings.blank)
include hc

theorem isLeast_low : IsLeast m.occupied m.low := by
  obtain ⟨hfirst, _, hblank⟩ | ⟨lo, hi, hfirst, _, hspans⟩ := hc.ends_cases
  · rw [occupied_of_blank hblank, low, hfirst]
    exact isLeast_singleton
  · have hwritten : IsLeast {a | m.now.tape.read m.settings.blank a ≠ m.settings.blank} lo :=
      ⟨hspans.first, fun a ha => (hspans.between a ha).1⟩
    rw [low, hfirst]
    exact hwritten.union isLeast_singleton

theorem isGreatest_high : IsGreatest m.occupied m.high := by
  obtain ⟨_, hlast, hblank⟩ | ⟨lo, hi, _, hlast, hspans⟩ := hc.ends_cases
  · rw [occupied_of_blank hblank, high, hlast]
    exact isGreatest_singleton
  · have hwritten : IsGreatest {a | m.now.tape.read m.settings.blank a ≠ m.settings.blank} hi :=
      ⟨hspans.last, fun a ha => (hspans.between a ha).2⟩
    rw [high, hlast]
    exact hwritten.union isGreatest_singleton

theorem written_bounds (a : Int) (ha : m.now.tape.read m.settings.blank a ≠ m.settings.blank) :
    m.low ≤ a ∧ a ≤ m.high :=
  ⟨(isLeast_low hc).2 (.inl ha), (isGreatest_high hc).2 (.inl ha)⟩

end Canonical

theorem low_le_high (m : Machine) : m.low ≤ m.high :=
  Int.le_trans m.low_le_head m.head_le_high

/-! ## The window -/

/-- The window counts up to the tape limit only. -/
theorem render_of_maxTapeLen_le (h : m.settings.maxTapeLen ≤ window) :
    m.render window = m.render m.settings.maxTapeLen := by
  have hreach : m.reach window = m.reach m.settings.maxTapeLen := by
    rw [reach, reach, Nat.min_eq_right (UInt64.le_iff_toNat_le.1 h), Nat.min_self]
  simp only [render, row, caret, leftEnd, rightEnd, hreach]

theorem reach_eq {around : Nat} (haround : around = min window.toNat m.settings.maxTapeLen.toNat)
    (h : 2 * around < UInt64.size) : m.reach window = around := by
  rw [reach, ← haround]
  exact if_pos h

/-! ## The row -/

theorem rowWithinAddresses_iff : m.RowWithinAddresses window ↔
    IsAddress (m.low - m.reach window) ∧ IsAddress (m.high + m.reach window) := by
  have hle := m.low_le_high
  have hreach := m.reach_nonneg window
  constructor
  · rintro ⟨hlow, hhigh⟩
    exact ⟨⟨hlow, by omega⟩, by omega, hhigh⟩
  · rintro ⟨hlow, hhigh⟩
    exact ⟨hlow.1, hhigh.2⟩

namespace RowWithinAddresses

variable (h : m.RowWithinAddresses window)
include h

theorem row_eq : m.row window = m.now.tape.slice m.settings.blank (m.low - m.reach window)
    (m.high + m.reach window) := by
  rw [row, h.leftEnd_eq, h.rightEnd_eq]

theorem length_row : ((m.row window).length : Int) = m.high - m.low + 1 + 2 * m.reach window := by
  have hle := m.low_le_high
  have hreach := m.reach_nonneg window
  rw [h.row_eq, Tape.length_slice]
  omega

theorem getElem_row {j : Nat} (hj : j < (m.row window).length) :
    (m.row window)[j] = m.now.tape.read m.settings.blank (m.low - m.reach window + j) := by
  simp only [h.row_eq, Tape.getElem_slice]

variable (hc : m.now.tape.Canonical m.settings.blank)
include hc

theorem faces_row :
    m.now.tape.Faces m.settings.blank (m.low - m.reach window) .right [] (m.row window) := by
  rw [h.row_eq]
  refine Tape.faces_slice fun a ha => ?_
  have hbounds := written_bounds hc a ha
  have hreach := m.reach_nonneg window
  omega

/-- The written cells and the head have as many blanks on either side as the window reaches. -/
theorem exists_row_eq_padded : ∃ shown, m.row window =
    List.replicate (m.reach window).toNat m.settings.blank ++ shown ++
      List.replicate (m.reach window).toNat m.settings.blank := by
  have hreach := Int.toNat_of_nonneg (m.reach_nonneg window)
  refine ⟨_, h.row_eq.trans (Tape.slice_eq_padded m.low_le_high (written_bounds hc) ?_ ?_)⟩
  · omega
  · omega

theorem unpadded_row : Text.unpadded m.settings.blank (m.row window) = m.report.tape.toList :=
  ((h.faces_row hc).toList_text_eq_unpadded hc).symm

end RowWithinAddresses

/-- A picture has to show the cells from the first to the last that is written or under the head.
Where the ends of the row are addresses, the row has these cells, with as many blanks on either side
as the window asks for, but never more than the tape limit. Each symbol of the row is the one at its
address, and without the blanks at its ends the row is the text of the tape. The row is followed by
the line of the caret and by the state. Where the distance of the head from the left end fits in a
word as well, the caret is at this distance, and so under the symbol that the machine reads. A
window over the tape limit makes no difference. -/
theorem picture_shows_window {s : Settings} {t : Table} (h : Attainable s t m) :
    IsLeast m.occupied m.low ∧ IsGreatest m.occupied m.high ∧
    (∀ window, s.maxTapeLen ≤ window → m.render window = m.render s.maxTapeLen) ∧
    ∀ window : UInt64,
      let around : Nat := min window.toNat s.maxTapeLen.toNat
      let left := m.low - around
      IsAddress left → IsAddress (m.high + around) →
      ∃ row : List Char,
        (m.render window).toList = row ++ '\n' ::
          (List.replicate (m.caret window) ' ' ++ ['^'] ++ '\n' :: m.now.state.toList) ∧
        (row.length : Int) = m.high - m.low + 1 + 2 * around ∧
        (∀ j, j < row.length → row[j]? = some (m.now.tape.read s.blank (left + j))) ∧
        (∃ shown, row = List.replicate around s.blank ++ shown ++ List.replicate around s.blank) ∧
        Text.unpadded s.blank row = m.report.tape.toList ∧
        (IsAddress (m.now.head - left) →
          (m.caret window : Int) = m.now.head - left ∧ row[m.caret window]? = some m.symbol) := by
  have hsettings := h.settings_eq
  have hc := h.canonical
  rw [← hsettings] at hc ⊢
  refine ⟨isLeast_low hc, isGreatest_high hc, fun _ => render_of_maxTapeLen_le, ?_⟩
  intro window around left hleft hright
  have hfits : 2 * around < UInt64.size := by
    have hle := m.low_le_high
    have hlow := hleft.1
    have hhigh := hright.2
    omega
  have hreach : m.reach window = around := reach_eq rfl hfits
  have hrow : m.RowWithinAddresses window := by
    rw [rowWithinAddresses_iff, hreach]
    exact ⟨hleft, hright⟩
  refine ⟨m.row window, m.toList_render window, ?_, ?_, ?_, hrow.unpadded_row hc, ?_⟩
  · rw [hrow.length_row, hreach]
  · intro j hj
    rw [List.getElem?_eq_getElem hj, hrow.getElem_row, hreach]
  · have hpadded := hrow.exists_row_eq_padded hc
    rw [hreach, Int.toNat_natCast] at hpadded
    exact hpadded
  · intro hoffset
    have hwithin : m.WithinAddresses window := by
      refine ⟨hrow.low, hrow.high, ?_⟩
      rw [hreach]
      exact hoffset.2
    refine ⟨?_, hwithin.getElem?_row⟩
    rw [hwithin.natCast_caret, hreach]

/-- Two symbols are written on the cells up to address 0, and the head is on the blank before
them. -/
theorem picture_shows_window_left_of_zero :
    let c : Configuration :=
      { steps := 2, tape := Tape.empty.writeAll '_' (-1) ['c', 'b'], head := -2, state := "HALT" }
    let m := (initial {} .empty).perform (.restore c)
    Attainable {} .empty m ∧ IsAddress (m.low - 3) ∧ IsAddress (m.high + 3) ∧
      IsAddress (m.now.head - (m.low - 3)) ∧ m.render 2000000 = m.render 1048576 ∧
      ∃ row, (m.render 3).toList = row ++ '\n' ::
          (List.replicate 3 ' ' ++ ['^'] ++ '\n' :: "HALT".toList) ∧
        row.length = 9 ∧ row[3]? = some '_' ∧ row[5]? = some 'b' ∧
        Text.unpadded '_' row = m.report.tape.toList := by
  intro c m
  have hm : Attainable {} .empty m := .perform (.restore c) .initial
  have hfaces : m.now.tape.Faces '_' (-1) .right [] ['c', 'b'] := by
    have hcanonical : c.tape.Canonical '_' := (Tape.canonical_empty '_').writeAll (-1) ['c', 'b']
    have htape : m.now.tape = c.tape := hcanonical.dropBlanks_eq
    rw [htape]
    exact Tape.faces_writeAll '_' (-1) ['c', 'b']
  have hwritten (a : Int) (ha : m.now.tape.read '_' a ≠ '_') : -1 ≤ a ∧ a < 1 := hfaces.written ha
  obtain ⟨hleast, hgreatest, hlimit, hshows⟩ := picture_shows_window hm
  have hlow : m.low = -2 := by
    refine hleast.unique ⟨.inr rfl, fun a ha => ?_⟩
    obtain hne | rfl := ha
    · have hplace := hwritten a hne
      omega
    · exact Int.le_refl _
  have hhigh : m.high = 0 := by
    refine hgreatest.unique ⟨.inl ?_, fun a ha => ?_⟩
    · show m.now.tape.read '_' 0 ≠ '_'
      rw [hfaces.read_right]
      decide
    · obtain hne | rfl := ha
      · exact Int.le_of_lt_add_one (hwritten a hne).2
      · decide
  have hleft : IsAddress (m.low - 3) := by
    rw [hlow]
    decide
  have hright : IsAddress (m.high + 3) := by
    rw [hhigh]
    decide
  have hoffset : IsAddress (m.now.head - (m.low - 3)) := by
    rw [hlow]
    decide
  obtain ⟨row, hrender, hlength, hsymbols, _, htext, hcaret⟩ := hshows 3 hleft hright
  obtain ⟨hdistance, hsymbol⟩ := hcaret hoffset
  have hcaret : m.caret 3 = 3 := by
    have haround : min (3 : UInt64).toNat ({} : Settings).maxTapeLen.toNat = 3 := by decide
    have hhead : m.now.head = -2 := rfl
    omega
  rw [hcaret] at hrender hsymbol
  have hnine : row.length = 9 := by
    rw [hlow, hhigh] at hlength
    exact Int.ofNat.inj hlength
  refine ⟨hm, hleft, hright, hoffset, hlimit 2000000 (by decide), row, hrender, ?_, ?_, ?_, htext⟩
  · exact hnine
  · have hhead : m.symbol = '_' := hfaces.read_right (-2)
    rw [hsymbol, hhead]
  · rw [hsymbols 5 (by omega), hlow]
    exact congrArg some (hfaces.read_right 0)

end TapeMachine.Machine
