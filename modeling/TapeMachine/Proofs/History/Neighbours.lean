import TapeMachine.Proofs.History.Recorded

/-!
# The neighbours of an index

`History.neighbours` looks up the states before and after an index. Indices are words, and the one
after the greatest is 0. No history is so long that it has an entry behind the greatest index, so
nothing follows there; what is given back is the state at index 0. At every other index both
neighbours are right (`History.neighbours_right_iff`).
-/

namespace TapeMachine.History

/-- The state of the entry at a position, which need not be a word. -/
def state? (h : History) (n : Nat) : Option String :=
  h.toList[n]?.map (·.state)

variable {h : History} {n : Nat}

theorem state?_eq_none (hn : h.length ≤ n) : h.state? n = none := by
  rw [state?, List.getElem?_eq_none (by rwa [length_toList])]
  rfl

theorem state?_zero_eq_none_iff : h.state? 0 = none ↔ h.isEmpty = true := by
  rw [state?, Option.map_eq_none_iff, List.getElem?_eq_none_iff, length_toList, Nat.le_zero]
  exact Array.isEmpty_iff_size_eq_zero.symm

theorem neighbours_fst (h : History) (index : UInt64) :
    (h.neighbours index).1 = if index = 0 then none else h.state? (index.toNat - 1) := by
  by_cases hzero : index = 0
  · simp [neighbours, hzero]
  · have hle : 1 ≤ index :=
      UInt64.le_iff_toNat_le.2 (Nat.pos_of_ne_zero fun h => hzero (UInt64.toNat_inj.1 h))
    have hbefore : (index - 1).toNat = index.toNat - 1 := UInt64.toNat_sub_of_le index 1 hle
    rw [neighbours, if_neg hzero, if_neg hzero, get?_eq, hbefore, state?]

theorem neighbours_snd (h : History) (index : UInt64) :
    (h.neighbours index).2 = h.state? ((index.toNat + 1) % UInt64.size) := by
  have hafter : (index + 1).toNat = (index.toNat + 1) % UInt64.size := UInt64.toNat_add index 1
  show (h.get? (index + 1)).map (·.state) = _
  rw [get?_eq, hafter, state?]

/-- After any operations, the state before an index is the one that stands there, and there is none
before index 0. The state after an index is the one that stands there just if that position is an
index too, or nothing stands anywhere: the state after the greatest index is the one at index 0. -/
theorem neighbours_right_iff (operations : List Operation) (index : UInt64) :
    let h := empty.performAll operations
    (h.neighbours index).1 = (if index = 0 then none else h.state? (index.toNat - 1)) ∧
    ((h.neighbours index).2 = h.state? (index.toNat + 1) ↔
      index.toNat + 1 < UInt64.size ∨ h.isEmpty = true) ∧
    (h.neighbours (.ofNat (UInt64.size - 1))).2 = h.state? 0 := by
  intro h
  have hlength : h.length ≤ UInt64.size := (holds_performAll operations).length_le
  refine ⟨h.neighbours_fst index, ?_, h.neighbours_snd _⟩
  rw [neighbours_snd]
  have hle : index.toNat + 1 ≤ UInt64.size := index.toNat_lt_size
  obtain hlt | heq := Nat.lt_or_eq_of_le hle
  · rw [Nat.mod_eq_of_lt hlt]
    exact iff_of_true rfl (.inl hlt)
  · rw [heq, Nat.mod_self, state?_eq_none hlength, state?_zero_eq_none_iff]
    simp

/-- Only step 0 is recorded, and it is told as what follows the greatest index. -/
theorem neighbours_wrap_around :
    let h := empty.performAll [.record ⟨0, .empty, 0, "INIT"⟩]
    let greatest : UInt64 := 18446744073709551615
    h.neighbours greatest = (none, some "INIT") ∧ h.state? (greatest.toNat + 1) = none := by
  decide +kernel

end TapeMachine.History
