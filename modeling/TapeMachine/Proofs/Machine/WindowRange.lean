import TapeMachine.Proofs.Machine.Growth
import TapeMachine.Proofs.Machine.Window
import TapeMachine.Proofs.Program.Accepted

/-!
# The range of a window

The ends of the row of a picture are the ends of what has to be shown, moved outwards by the window.
The window is capped at the tape limit, which can be any word. A window that is no address is
replaced by a quarter of the addresses on one side, and for that there is room. The largest windows
that are addresses are used as they are, and for them a symbol or a head on address 1 can be too far
out. How much room a machine leaves follows from the interval that its head has been on
(`Machine.Sweeps.extent`).

## Main definitions

- `Machine.SumsWithinAddresses`: every number that a picture computes is an address
- `Machine.SoonReached`: the machines that fewer than `2 ^ 61` applied rules make of an input

## Main results

- `Machine.sums_within_addresses_iff`: for which tape limits the sums of all these
  machines are addresses for every window, and for which windows they are if no input has
  more than `2 ^ 61` symbols
- `Machine.sum_beyond_addresses`: a machine that computes a number that is no address, after one
  rule
-/

namespace TapeMachine.Machine

/-- The window, the two ends of the row, and how far the head is from the left end, are
addresses. -/
structure SumsWithinAddresses (m : Machine) (window : UInt64) : Prop where
  reach : IsAddress (m.reach window)
  left : IsAddress (m.low - m.reach window)
  right : IsAddress (m.high + m.reach window)
  offset : IsAddress (m.now.head - (m.low - m.reach window))

/-- Fewer than `2 ^ 61` applied rules take a machine from an input to `m`. -/
def SoonReached (s : Settings) (input : String) (m : Machine) : Prop :=
  ∃ t m₀ k, ofInput s t input = .ok m₀ ∧ m₀.ReachesIn k m ∧ 8 * k < UInt64.size

variable {s : Settings} {input : String} {m : Machine} {window : UInt64} {n k : Nat} {lo hi : Int}

/-! ## The window -/

theorem reach_of_size_le (h : UInt64.size ≤ 2 * min window.toNat m.settings.maxTapeLen.toNat) :
    m.reach window = (UInt64.size / 2 - 1) / 4 := by
  rw [reach]
  exact if_neg (Nat.not_lt.2 h)

/-- The window is never more than the tape limit. -/
theorem reach_le (m : Machine) (window : UInt64) :
    m.reach window ≤ m.settings.maxTapeLen.toNat := by
  by_cases h : 2 * min window.toNat m.settings.maxTapeLen.toNat < UInt64.size
  · rw [reach_eq rfl h]
    omega
  · rw [reach_of_size_le (Nat.le_of_not_lt h)]
    omega

/-! ## The room that a machine leaves -/

/-- What has to be shown lies between the cells that the head has been on and those of the input. -/
theorem Sweeps.extent (h : m.Sweeps n k lo hi) :
    -(k : Int) ≤ m.low ∧ m.high ≤ max (n - 1 : Int) k ∧ m.now.head - m.low ≤ k := by
  have horigin := h.origin
  have hwidth := h.width
  have hhead := h.head
  have hdistance := h.distance
  have hlow : lo ≤ m.low ∨ m.low = m.now.head := by
    obtain hwritten | heq := (isLeast_low h.canonical).1
    · have hplace := h.written _ hwritten
      omega
    · exact .inr heq
  have hhigh : m.high < n ∨ m.high < hi ∨ m.high = m.now.head := by
    obtain hwritten | heq := (isGreatest_high h.canonical).1
    · have hplace := h.written _ hwritten
      omega
    · exact .inr (.inr heq)
  omega

/-- The bounds that are not asked for follow from the head being between the ends of what is
shown. -/
theorem sumsWithinAddresses_iff : m.SumsWithinAddresses window ↔ m.WithinAddresses window := by
  constructor
  · exact fun h => ⟨h.left.1, h.right.2, h.offset.2⟩
  · rintro ⟨hleft, hright, hoffset⟩
    have hreach := m.reach_nonneg window
    have hlow := m.low_le_head
    have hhigh := m.head_le_high
    exact ⟨⟨by omega, by omega⟩, ⟨hleft, by omega⟩, ⟨by omega, hright⟩, ⟨by omega, hoffset⟩⟩

theorem Sweeps.sumsWithinAddresses (h : m.Sweeps n k lo hi)
    (hinput : 2 * (n + m.reach window) ≤ UInt64.size)
    (hrules : 2 * (k + 1 + m.reach window) ≤ UInt64.size) : m.SumsWithinAddresses window := by
  obtain ⟨hlow, hhigh, hoffset⟩ := h.extent
  exact sumsWithinAddresses_iff.2 ⟨by omega, by omega, by omega⟩

namespace SoonReached

theorem settings_eq (h : SoonReached s input m) : m.settings = s := by
  obtain ⟨t, m₀, k, hm, hr, _⟩ := h
  rw [hr.settings_eq, now_of_ofInput hm]

theorem length_le (h : SoonReached s input m) : input.length ≤ s.maxTapeLen.toNat := by
  obtain ⟨t, m₀, k, hm, _⟩ := h
  exact (inputFault?_eq_none_iff.1 (inputFault?_of_ofInput hm)).2

/-- There is room for all pictures whose window and input are not too large together. -/
theorem sumsWithinAddresses (h : SoonReached s input m)
    (hinput : 2 * (input.length + m.reach window) ≤ UInt64.size)
    (hwindow : 8 * m.reach window ≤ 3 * UInt64.size) : m.SumsWithinAddresses window := by
  obtain ⟨t, m₀, k, hm, hr, hk⟩ := h
  obtain ⟨lo, hi, hsweeps⟩ := hr.exists_sweeps (sweeps_of_ofInput hm)
  have hsize : UInt64.size = 18446744073709551616 := rfl
  exact hsweeps.sumsWithinAddresses hinput (by omega)

end SoonReached

/-- As many symbols as the tape limit allows can be on a tape, with the last of them as far on the
right. -/
theorem exists_soonReached_high (hn : n < s.maxTapeLen.toNat) :
    ∃ input m, input.length = n + 1 ∧ SoonReached s input m ∧ m.high = n := by
  obtain ⟨c, hspace, hblank⟩ : ∃ c, c ≠ ' ' ∧ c ≠ s.blank := by
    by_cases h : 'a' = s.blank
    · exact ⟨'b', by decide, by rw [← h]; decide⟩
    · exact ⟨'a', by decide, h⟩
  let input := String.ofList (List.replicate (n + 1) c)
  have htoList : input.toList = List.replicate (n + 1) c := String.toList_ofList
  have hlength : input.length = n + 1 := by
    rw [← String.length_toList, htoList, List.length_replicate]
  have hfault : (initial s .empty).inputFault? input = none := by
    rw [inputFault?_eq_none_iff, htoList, hlength]
    exact ⟨fun hmem => hspace (List.eq_of_mem_replicate hmem).symm, hn⟩
  have hlast : (Tape.ofInput s.blank input).last? = some (n : Int) :=
    Tape.last?_ofInput hlength
      (by rw [htoList, List.getElem?_replicate, if_pos (Nat.lt_succ_self n)]) hblank
  refine ⟨input, _, hlength,
    ⟨.empty, _, 0, ofInput_of_inputFault?_eq_none hfault, .zero, by decide⟩, ?_⟩
  show ((Tape.ofInput s.blank input).last?.map (max · 0)).getD 0 = n
  rw [hlast]
  exact Int.max_eq_left (Int.natCast_nonneg n)

/-- The pictures of all machines that are soon reached compute nothing but addresses, whatever the
window, just if the tape limit is at most `2 ^ 62`. If no input has more than `2 ^ 61` symbols, they
do so for just those windows that are, after the cap, at most `2 ^ 63 - 2 ^ 61` or no addresses. -/
theorem sums_within_addresses_iff (s : Settings) :
    ((∀ input m window, SoonReached s input m → m.SumsWithinAddresses window) ↔
      4 * s.maxTapeLen.toNat ≤ UInt64.size) ∧
    ∀ window : UInt64,
      let around := min window.toNat s.maxTapeLen.toNat
      (∀ input m, SoonReached s input m → 8 * input.length ≤ UInt64.size →
        m.SumsWithinAddresses window) ↔
        8 * around ≤ 3 * UInt64.size ∨ UInt64.size ≤ 2 * around := by
  have hsize : UInt64.size = 18446744073709551616 := rfl
  constructor
  · constructor
    · -- A longer input than this leaves no room for the largest window that is an address.
      intro hall
      by_contra hlimit
      obtain ⟨input, m, _, hsoon, hhigh⟩ :=
        exists_soonReached_high (s := s) (n := UInt64.size / 4) (by omega)
      have hright := (hall input m 9223372036854775807 hsoon).right.2
      have hwindow : (9223372036854775807 : UInt64).toNat = 9223372036854775807 := rfl
      rw [hhigh, reach_eq rfl (by omega), hsoon.settings_eq, hwindow] at hright
      omega
    · intro hlimit input m window h
      have hreach := m.reach_le window
      have hlength := h.length_le
      rw [h.settings_eq] at hreach
      exact h.sumsWithinAddresses (by omega) (by omega)
  · intro window around
    constructor
    · -- One symbol more than there is room for is still few.
      intro hall
      by_contra hwindow
      rw [not_or, Nat.not_le, Nat.not_le] at hwindow
      obtain ⟨input, m, hlength, hsoon, hhigh⟩ :=
        exists_soonReached_high (s := s) (n := UInt64.size / 2 - around) (by omega)
      have hright := (hall input m hsoon (by omega)).right.2
      have hreach : m.reach window = around := reach_eq (by rw [hsoon.settings_eq]) hwindow.2
      rw [hhigh, hreach] at hright
      omega
    · rintro (hsmall | hlarge) input m h hlength
      · have hreach : m.reach window = around := reach_eq (by rw [h.settings_eq]) (by omega)
        exact h.sumsWithinAddresses (by omega) (by omega)
      · have hreach : m.reach window = (UInt64.size / 2 - 1) / 4 :=
          reach_of_size_le (by rwa [h.settings_eq])
        exact h.sumsWithinAddresses (by omega) (by omega)

/-- One rule moves the head to address 1, and the largest window that is an address
ends one address too far. -/
theorem sum_beyond_addresses :
    let s : Settings := { maxTapeLen := 9223372036854775807 }
    s.check = .ok () ∧ ∃ p m, Program.ofText s "INIT a HALT b R" = .ok p ∧ p.machine "a" = .ok m ∧
      SoonReached s "a" m.step.2 ∧ ¬ m.step.2.SumsWithinAddresses 9223372036854775807 := by
  intro s
  obtain ⟨p, m, hp, hm, htest⟩ := Program.exists_machine s "INIT a HALT b R" "a"
    (fun _ m => m.step.2.now.head == 1) (by decide +kernel)
  have hhead : m.step.2.now.head = 1 := beq_iff_eq.1 htest
  have hinput : ofInput s p.table "a" = .ok m := by
    rw [← Program.settings_of_ofText hp]
    exact Program.machine_eq_ok_iff.1 hm
  have hstep : m.ReachesIn 1 m.step.2 := by
    have hstay : m.step.2 ≠ m := by
      intro heq
      rw [heq, now_of_ofInput hinput] at hhead
      cases hhead
    obtain ⟨_, heq⟩ | ⟨_, _, heq⟩ | ⟨m', happlies, heq⟩ := m.step_cases
    · exact absurd (congrArg Prod.snd heq) hstay
    · exact absurd (congrArg Prod.snd heq) hstay
    · rw [heq]
      exact .step .zero happlies
  have hsoon : SoonReached s "a" m.step.2 := ⟨p.table, m, 1, hinput, hstep, by decide⟩
  refine ⟨by decide, p, m, hp, hm, hsoon, fun h => ?_⟩
  have hreach : m.step.2.reach 9223372036854775807 = 9223372036854775807 := by
    rw [reach, hsoon.settings_eq]
    decide
  have hhigh := m.step.2.head_le_high
  have hright := h.right.2
  have hsize : UInt64.size = 18446744073709551616 := rfl
  omega

end TapeMachine.Machine
