import TapeMachine.Proofs.Machine.Reach
import TapeMachine.Proofs.Tape.Extent

/-!
# How far a run gets

Each applied rule writes one cell, under the head, and moves the head to a neighbour of it. So the
cells that the head has been on are an interval around address 0 that grows by one address a rule
at most, and the head stands in it or next to it (`Machine.Sweeps`). All bounds on the head, the
tape and its text come from this interval: the text runs from its first address, or that of the
input, to the last of either.

## Main definitions

- `Machine.Sweeps`: the interval that the head has been on, as the invariant of a run
- `Machine.GrownBy`: the bounds on a machine after a number of rules
-/

namespace TapeMachine.Machine

/-- After `k` rules on an input of `n` symbols, the head has been on the cells from `lo` up to `hi`,
which is not among them. -/
structure Sweeps (n k : Nat) (lo hi : Int) (m : Machine) : Prop where
  canonical : m.now.tape.Canonical m.settings.blank
  origin : lo ≤ 0 ∧ 0 ≤ hi
  nonempty : 0 < k → 0 < hi
  width : hi - lo ≤ k
  head : lo - 1 ≤ m.now.head ∧ m.now.head ≤ hi
  distance : m.now.head.natAbs ≤ k
  parity : m.now.head % 2 = k % 2
  written : ∀ a, m.now.tape.read m.settings.blank a ≠ m.settings.blank →
    0 ≤ a ∧ a < n ∨ lo ≤ a ∧ a < hi
  cells : m.now.tape.size ≤ n + k

/-- What `k` rules can make of a machine with `n` symbols of input. -/
structure GrownBy (n k : Nat) (m : Machine) : Prop where
  head : m.now.head.natAbs ≤ k
  parity : m.now.head % 2 = k % 2
  written : 0 < k → ∀ a, m.now.tape.read m.settings.blank a ≠ m.settings.blank →
    -(k - 1 : Int) ≤ a ∧ a ≤ max (n - 1 : Int) (k - 1)
  cells : m.now.tape.size ≤ n + k
  text : m.report.tape.length ≤ n + k

variable {n k : Nat} {lo hi : Int} {m₀ m m' : Machine} {a : Action}

theorem head_apply (m : Machine) (a : Action) :
    (m.apply a).head = m.now.head - 1 ∨ (m.apply a).head = m.now.head + 1 := by
  have hhead : (m.apply a).head = m.now.head + a.direction.offset := rfl
  rw [hhead]
  cases a.direction with
  | left => exact .inl rfl
  | right => exact .inr rfl

namespace Sweeps

/-- The cell under the head is the only one that can be new. -/
theorem applies (h : m.Sweeps n k lo hi) (ha : m.Applies m') :
    m'.Sweeps n (k + 1) (min lo m.now.head) (max hi (m.now.head + 1)) := by
  have hcanonical := ha.canonical h.canonical
  obtain ⟨_, a, _, rfl⟩ := ha
  have hmove := m.head_apply a
  have hsize : (m.apply a).tape.size ≤ m.now.tape.size + 1 := m.now.tape.size_write_le _ _ _
  obtain ⟨_, horigin, hnonempty, hwidth, hhead, hdistance, hparity, hwritten, hcells⟩ := h
  exact {
    canonical := hcanonical
    origin := by omega
    nonempty := by omega
    width := by omega
    head := by
      dsimp only
      omega
    distance := by
      dsimp only
      omega
    parity := by
      dsimp only
      omega
    written b hb := by
      dsimp only at hb
      rw [read_apply] at hb
      split at hb
      · right
        omega
      · have hold := hwritten b hb
        omega
    cells := by
      dsimp only
      omega }

theorem grownBy (h : m.Sweeps n k lo hi) : m.GrownBy n k := by
  obtain ⟨hcanonical, horigin, hnonempty, hwidth, _, hdistance, hparity, hwritten, hcells⟩ := h
  refine ⟨hdistance, hparity, ?_, hcells, ?_⟩
  · intro hpos b hb
    have hplace := hwritten b hb
    have hfirst := hnonempty hpos
    omega
  · -- From `lo` on, either the input ends last and adds its length, or the interval does and
    -- has it all.
    have hlength : m.report.tape.length ≤ (max (n : Int) hi - lo).toNat :=
      hcanonical.length_text_le fun b hb => by
        have hplace := hwritten b hb
        omega
    omega

end Sweeps

theorem sweeps_of_ofInput {s : Settings} {t : Table} {input : String}
    (h : ofInput s t input = .ok m) :
    m.Sweeps input.length 0 0 0 := by
  obtain rfl := now_of_ofInput h
  refine ⟨Tape.canonical_ofInput s.blank input, by omega, by omega, by omega, ?_, ?_, rfl, ?_,
    Tape.size_ofInput_le s.blank input⟩
  · show (0 : Int) - 1 ≤ 0 ∧ (0 : Int) ≤ 0
    decide
  · exact Nat.le_refl 0
  · intro a ha
    exact .inl ⟨(Tape.getElem?_of_read_ofInput_ne ha).1, Tape.lt_length_of_read_ofInput_ne ha⟩

theorem ReachesIn.exists_sweeps (hr : m₀.ReachesIn k m) (h0 : m₀.Sweeps n 0 0 0) :
    ∃ lo hi, m.Sweeps n k lo hi := by
  induction hr with
  | zero => exact ⟨0, 0, h0⟩
  | step _ ha ih =>
    obtain ⟨lo, hi, h⟩ := ih
    exact ⟨_, _, h.applies ha⟩

/-! ## The head in 64 bits -/

/-- A head that is not too far from address 0 moves the same in a signed 64-bit word. -/
theorem toInt_head_apply (a : Action) (h : 2 * (m.now.head.natAbs + 1) < UInt64.size) :
    (Int64.ofInt m.now.head + Int64.ofInt a.direction.offset).toInt = (m.apply a).head := by
  have hmove := m.head_apply a
  have hsum : (m.apply a).head = m.now.head + a.direction.offset := rfl
  rw [← Int64.ofInt_add, ← hsum]
  rw [UInt64.size] at h
  exact Int64.toInt_ofInt_of_le (by omega) (by omega)

end TapeMachine.Machine
