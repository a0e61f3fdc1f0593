import TapeMachine.History

/-!
# What a history holds

Before a configuration is kept, a history is cut at the step of that configuration, in whatever
order the steps come. So no entry stands behind its own step, and the configuration recorded last is
the last entry. As long as nothing is recorded beyond the end of the history, entry `i` is the
configuration of step `i` that was recorded last, and it stays until an earlier step is recorded.

## Main definitions

- `History.Operation`, `History.performAll`: what can be done with a history, and a sequence of it
- `History.recorded`: what a sequence of operations records after everything was
  dropped for the last time
- `History.Latest`: the last configuration of a step, with only later steps after it
- `History.Gapless`: operations that record nothing beyond the end of the history

## Main result

- `History.history_is_single_run`: what the entries of a history are after any operations
-/

namespace TapeMachine.History

/-- What can be done with a history. -/
inductive Operation where
  | record (c : Configuration)
  | clear

/-- The history after an operation. -/
def perform (h : History) : Operation → History
  | .record c => h.record c
  | .clear => .empty

/-- The history after a sequence of operations. -/
def performAll (h : History) (operations : List Operation) : History :=
  operations.foldl perform h

/-- What counts as recorded after an operation, if it was `cs` before. -/
def note (cs : List Configuration) : Operation → List Configuration
  | .record c => cs ++ [c]
  | .clear => []

/-- All that was recorded since the history was cleared for the last time, in the order of
recording. -/
def recorded (operations : List Operation) : List Configuration :=
  operations.foldl note []

/-- `c` is the last configuration of step `i` among `cs`, and after it come only later steps. -/
def Latest (cs : List Configuration) (i : UInt64) (c : Configuration) : Prop :=
  ∃ before after, cs = before ++ c :: after ∧ c.steps = i ∧ ∀ d ∈ after, i < d.steps

/-- No step is recorded that lies beyond the end of the history at that moment. -/
def Gapless (h : History) : List Operation → Prop
  | [] => True
  | .record c :: rest => c.steps.toNat ≤ h.length ∧ Gapless (h.record c) rest
  | .clear :: rest => Gapless .empty rest

instance decidableGapless (h : History) :
    (operations : List Operation) → Decidable (Gapless h operations)
  | [] => inferInstanceAs (Decidable True)
  | .record c :: rest =>
    have := decidableGapless (h.record c) rest
    inferInstanceAs (Decidable (_ ∧ _))
  | .clear :: rest => decidableGapless .empty rest

variable {h : History} {c d : Configuration} {cs : List Configuration} {i : UInt64}

/-! ## One recording -/

theorem length_toList (h : History) : h.toList.length = h.length :=
  Array.length_toList

theorem get?_eq (h : History) (i : UInt64) : h.get? i = h.toList[i.toNat]? := by
  simp [get?, toList]

theorem last?_eq (h : History) : h.last? = h.toList.getLast? := by
  simp [last?, toList]

theorem length_record (h : History) (c : Configuration) :
    (h.record c).length = min c.steps.toNat h.length + 1 := by
  rw [← length_toList, toList_record, List.length_append, List.length_take, length_toList,
    List.length_singleton]

theorem last?_record (h : History) (c : Configuration) : (h.record c).last? = some c := by
  rw [last?_eq, toList_record, List.getLast?_concat]

/-- What is recorded comes behind the entries of earlier steps, and nothing comes behind it. -/
theorem getElem?_toList_record (h : History) (c : Configuration) (n : Nat) :
    (h.record c).toList[n]? =
      if n < min c.steps.toNat h.length then h.toList[n]?
      else if n = min c.steps.toNat h.length then some c else none := by
  have hlength : (h.toList.take c.steps.toNat).length = min c.steps.toNat h.length := by
    rw [List.length_take, length_toList]
  rw [toList_record]
  by_cases hlt : n < min c.steps.toNat h.length
  · rw [if_pos hlt, List.getElem?_append_left (by omega), List.getElem?_take_of_lt (by omega)]
  · rw [if_neg hlt, List.getElem?_append_right (by omega), List.getElem?_singleton, hlength]
    by_cases heq : n = min c.steps.toNat h.length
    · rw [if_pos heq, if_pos (by omega)]
    · rw [if_neg heq, if_neg (by omega)]

theorem get?_record_of_lt (h : History) (hi : i.toNat < min c.steps.toNat h.length) :
    (h.record c).get? i = h.get? i := by
  rw [get?_eq, getElem?_toList_record, if_pos hi, get?_eq]

/-- At the end of a history, or before it, a configuration is put at its own step. -/
theorem get?_record_of_le (hc : c.steps.toNat ≤ h.length) (i : UInt64) :
    (h.record c).get? i =
      if i < c.steps then h.get? i else if i = c.steps then some c else none := by
  rw [get?_eq, get?_eq, getElem?_toList_record, Nat.min_eq_left hc]
  simp only [UInt64.lt_iff_toNat_lt, ← UInt64.toNat_inj]

theorem latest_concat :
    Latest (cs ++ [c]) i d ↔ d = c ∧ c.steps = i ∨ i < c.steps ∧ Latest cs i d := by
  constructor
  · rintro ⟨before, after, heq, hstep, hlater⟩
    obtain rfl | ⟨after, e, rfl⟩ := List.eq_nil_or_concat after
    · obtain ⟨_, hlast⟩ := List.append_inj' heq rfl
      obtain rfl : c = d := List.singleton_inj.1 hlast
      exact .inl ⟨rfl, hstep⟩
    · rw [List.concat_eq_append, ← List.cons_append, ← List.append_assoc] at heq
      obtain ⟨hinit, hlast⟩ := List.append_inj' heq rfl
      obtain rfl : c = e := List.singleton_inj.1 hlast
      rw [List.concat_eq_append, List.forall_mem_append] at hlater
      exact .inr ⟨hlater.2 c (List.mem_singleton_self c), before, after, hinit, hstep, hlater.1⟩
  · rintro (⟨rfl, hstep⟩ | ⟨hlt, before, after, rfl, hstep, hlater⟩)
    · exact ⟨cs, [], rfl, hstep, List.forall_mem_nil _⟩
    · refine ⟨before, after ++ [c], by simp, hstep, ?_⟩
      rw [List.forall_mem_append]
      exact ⟨hlater, by simpa using hlt⟩

/-! ## Whatever is recorded -/

/-- What holds of a history whatever the steps of the recorded configurations are. -/
structure Holds (cs : List Configuration) (h : History) : Prop where
  le_steps : ∀ (n : Nat) (c : Configuration), h.toList[n]? = some c → n ≤ c.steps.toNat
  last : h.last? = cs.getLast?

namespace Holds

theorem empty : Holds [] .empty where
  le_steps n c hc := by simp at hc
  last := rfl

theorem record (hh : Holds cs h) (c : Configuration) : Holds (cs ++ [c]) (h.record c) where
  le_steps n d hd := by
    rw [getElem?_toList_record] at hd
    split at hd
    · exact hh.le_steps n d hd
    · split at hd
      · cases hd
        omega
      · cases hd
  last := by rw [last?_record, List.getLast?_concat]

theorem performAll (hh : Holds cs h) (operations : List Operation) :
    Holds (operations.foldl note cs) (h.performAll operations) := by
  induction operations generalizing cs h with
  | nil => exact hh
  | cons o rest ih =>
    cases o with
    | record c => exact ih (hh.record c)
    | clear => exact ih .empty

/-- There is a word for every index. -/
theorem length_le (hh : Holds cs h) : h.length ≤ UInt64.size := by
  refine Nat.le_of_not_lt fun hlt => ?_
  have hbound : UInt64.size < h.toList.length := by rwa [length_toList]
  have hle := hh.le_steps UInt64.size _ (List.getElem?_eq_getElem hbound)
  have hword := (h.toList[UInt64.size]).steps.toNat_lt_size
  omega

end Holds

theorem holds_performAll (operations : List Operation) :
    Holds (recorded operations) (empty.performAll operations) :=
  Holds.empty.performAll operations

/-! ## Recordings without gaps -/

/-- Every step has the entry that was recorded last and that no earlier step has dropped since. -/
def Linear (cs : List Configuration) (h : History) : Prop :=
  ∀ (i : UInt64) c, h.get? i = some c ↔ Latest cs i c

namespace Linear

theorem empty : Linear [] .empty := by
  intro i c
  rw [get?_eq]
  constructor
  · intro hc
    cases hc
  · rintro ⟨before, after, heq, _⟩
    cases before <;> cases heq

theorem record (hl : Linear cs h) (hc : c.steps.toNat ≤ h.length) :
    Linear (cs ++ [c]) (h.record c) := by
  intro i d
  rw [get?_record_of_le hc, latest_concat, ← hl i d]
  by_cases hlt : i < c.steps
  · have hne : c.steps ≠ i := (UInt64.ne_of_lt hlt).symm
    simp [hlt, hne]
  · rw [if_neg hlt]
    by_cases heq : i = c.steps
    · simp [heq, eq_comm]
    · simp [heq, hlt, Ne.symm heq]

theorem performAll {operations : List Operation} (hl : Linear cs h) (hg : Gapless h operations) :
    Linear (operations.foldl note cs) (h.performAll operations) := by
  induction operations generalizing cs h with
  | nil => exact hl
  | cons o rest ih =>
    cases o with
    | record c => exact ih (hl.record hg.1) hg.2
    | clear => exact ih .empty hg

end Linear

/-- After any operations, no entry of a history stands behind its own step, and the last entry
is the configuration that was recorded last, if any was since the history was cleared. Recording
a configuration keeps the entries below its step and puts the configuration behind them. If no
step was ever recorded beyond the end of the history, every entry stands at its own step: it is
the last configuration that was recorded of this step, and it is there as long as no earlier
step was recorded after it. -/
theorem history_is_single_run (operations : List Operation) :
    let h := empty.performAll operations
    (∀ (i : UInt64) c, h.get? i = some c → i ≤ c.steps) ∧
    h.last? = (recorded operations).getLast? ∧
    (∀ c : Configuration, let kept := min c.steps.toNat h.length
      (h.record c).length = kept + 1 ∧ (h.record c).last? = some c ∧
      ∀ i : UInt64, i.toNat < kept → (h.record c).get? i = h.get? i) ∧
    (Gapless .empty operations → ∀ (i : UInt64) c,
      (h.get? i = some c → c.steps = i) ∧
      (h.get? i = some c ↔ Latest (recorded operations) i c)) := by
  intro h
  have hh := holds_performAll operations
  refine ⟨?_, hh.last, ?_, ?_⟩
  · intro i c hc
    rw [get?_eq] at hc
    exact UInt64.le_iff_toNat_le.2 (hh.le_steps _ c hc)
  · intro c kept
    exact ⟨h.length_record c, h.last?_record c, fun i hi => h.get?_record_of_lt hi⟩
  · intro hg i c
    have hlatest := Linear.empty.performAll hg i c
    refine ⟨fun hc => ?_, hlatest⟩
    obtain ⟨_, _, _, hstep, _⟩ := hlatest.1 hc
    exact hstep

/-- Three steps before the history is cleared, three after it, and then the second of them once
more. -/
theorem history_is_single_run_rewound :
    let before (step : UInt64) (state : String) : Configuration := ⟨step, .empty, 0, state⟩
    let operations : List Operation :=
      [.record (before 0 "A"), .record (before 1 "B"), .record (before 2 "C"), .clear,
        .record (before 0 "INIT"), .record (before 1 "FIND"), .record (before 2 "BACK"),
        .record (before 1 "GO")]
    let h := empty.performAll operations
    Gapless .empty operations ∧ h.length = 2 ∧ h.last? = some (before 1 "GO") ∧
      h.get? 1 = some (before 1 "GO") ∧ Latest (recorded operations) 1 (before 1 "GO") ∧
      ∀ c, ¬ Latest (recorded operations) 2 c := by
  intro before operations h
  have hgapless : Gapless .empty operations := by decide
  obtain ⟨_, hlast, _, hentries⟩ := history_is_single_run operations
  have hcomputed : h.length = 2 ∧ h.get? 1 = some (before 1 "GO") ∧ h.get? 2 = none := by
    decide +kernel
  obtain ⟨hlength, hone, htwo⟩ := hcomputed
  refine ⟨hgapless, hlength, hlast, hone, (hentries hgapless 1 _).2.1 hone, fun c hc => ?_⟩
  cases htwo.symm.trans ((hentries hgapless 2 c).2.2 hc)

end TapeMachine.History
