import TapeMachine.Proofs.Machine.Reach

/-!
# Bounded runs

`Machine.stepN` counts the calls it makes and `Machine.run` looks at the steps since the
input was loaded. Both go on by one rule at a time and end alike in the halt state and where
no rule applies, so a run up to a limit is the same as that many steps less those already
made, with a report at the end.
-/

namespace TapeMachine.Machine

variable {m m' : Machine}

/-! ## How each of the two goes on and ends -/

theorem stepN_of_isHalted (h : m.isHalted = true) (n : Nat) : m.stepN n = (.ok .halted, m) := by
  cases n with
  | zero => rw [stepN, signal, if_pos h]
  | succ n =>
    rw [stepN, step_of_isHalted h]

theorem stepN_succ_of_action?_eq_none (h : m.isHalted = false) (ha : m.action? = none) (n : Nat) :
    m.stepN (n + 1) = (.error m.stuck, m) := by
  rw [stepN, step_of_action?_eq_none h ha]

/-- Also in the case that the first rule halts the machine: then the other calls do nothing. -/
theorem Applies.stepN_succ (h : m.Applies m') (n : Nat) : m.stepN (n + 1) = m'.stepN n := by
  cases hh : m'.isHalted with
  | true =>
    rw [stepN_of_isHalted hh, stepN, h.step_eq, signal, if_pos hh]
  | false =>
    have hs : m.step = (.ok .running, m') := by
      rw [h.step_eq, signal, if_neg (by simp [hh])]
    rw [stepN, hs]

theorem run_of_isDone {max : UInt64} (h : m.isDone max = true) : m.run max = (.ok m.report, m) := by
  rw [run, dif_pos h]

theorem run_of_action?_eq_none {max : UInt64} (h : m.isHalted = false) (hlt : m.now.steps < max)
    (ha : m.action? = none) : m.run max = (.error m.stuck, m) := by
  have hdone : ¬m.isDone max = true := by simp [isDone, h, UInt64.not_le.2 hlt]
  rw [run, dif_neg hdone]
  split
  · rename_i heq
    rw [step_of_action?_eq_none h ha] at heq
    cases heq
    rfl
  · rename_i heq
    rw [step_of_action?_eq_none h ha] at heq
    cases heq

theorem Applies.run_eq {max : UInt64} (h : m.Applies m') (hlt : m.now.steps < max) :
    m.run max = m'.run max := by
  have hdone : ¬m.isDone max = true := by simp [isDone, h.1, UInt64.not_le.2 hlt]
  rw [run, dif_neg hdone]
  split
  · rename_i heq
    rw [h.step_eq] at heq
    cases heq
  · rename_i heq
    rw [h.step_eq] at heq
    cases heq
    rfl

/-! ## Steps in a row -/

theorem stepN_add_of_ok {a : Nat} {r : Signal} (h : m.stepN a = (.ok r, m')) (b : Nat) :
    m.stepN (a + b) = m'.stepN b := by
  induction a generalizing m with
  | zero =>
    rw [stepN] at h
    cases h
    rw [Nat.zero_add]
  | succ a ih =>
    rw [Nat.succ_add]
    obtain ⟨hh, _⟩ | ⟨hh, ha, _⟩ | ⟨m₁, ha, _⟩ := m.step_cases
    · rw [stepN_of_isHalted hh] at h
      cases h
      rw [stepN_of_isHalted hh, stepN_of_isHalted hh]
    · rw [stepN_succ_of_action?_eq_none hh ha] at h
      cases h
    · rw [ha.stepN_succ] at h
      rw [ha.stepN_succ, ih h]

theorem stepN_add_of_error {a : Nat} {e : Stuck} (h : m.stepN a = (.error e, m')) (b : Nat) :
    m.stepN (a + b) = (.error e, m') := by
  induction a generalizing m with
  | zero =>
    rw [stepN] at h
    cases h
  | succ a ih =>
    rw [Nat.succ_add]
    obtain ⟨hh, _⟩ | ⟨hh, ha, _⟩ | ⟨m₁, ha, _⟩ := m.step_cases
    · rw [stepN_of_isHalted hh] at h
      cases h
    · rw [stepN_succ_of_action?_eq_none hh ha] at h
      rw [stepN_succ_of_action?_eq_none hh ha, h]
    · rw [ha.stepN_succ] at h
      rw [ha.stepN_succ, ih h]

theorem ReachesIn.stepN_add {n : Nat} (h : m.ReachesIn n m') (k : Nat) :
    m.stepN (n + k) = m'.stepN k := by
  induction h generalizing k with
  | zero => rw [Nat.zero_add]
  | @step n m₁ m₂ _ ha ih => rw [Nat.add_assoc, Nat.add_comm 1 k, ih, ha.stepN_succ]

/-- A run is as many steps as the limit leaves, with a report at the end. -/
theorem run_eq_stepN {max : UInt64} {n : Nat} (hn : m.now.steps.toNat + n = max.toNat) :
    m.run max = ((m.stepN n).1.map fun _ => (m.stepN n).2.report, (m.stepN n).2) := by
  induction n generalizing m with
  | zero =>
    have hle : max ≤ m.now.steps := UInt64.le_iff_toNat_le.2 (by omega)
    rw [run_of_isDone (by simp [isDone, hle]), stepN]
    rfl
  | succ n ih =>
    have hlt : m.now.steps < max := UInt64.lt_iff_toNat_lt.2 (by omega)
    obtain ⟨hh, _⟩ | ⟨hh, ha, _⟩ | ⟨m₁, ha, _⟩ := m.step_cases
    · rw [run_of_isDone (by simp [isDone, hh]), stepN_of_isHalted hh]
      rfl
    · rw [run_of_action?_eq_none hh hlt ha, stepN_succ_of_action?_eq_none hh ha]
      rfl
    · have hsteps := ha.toNat_steps hlt
      rw [ha.run_eq hlt, ha.stepN_succ, ih (by omega)]

/-! ## Runs up to a limit -/

/-- All that a run can begin with: it is over, it fails, or it applies a rule below the limit and
goes on. -/
theorem run_cases (m : Machine) (max : UInt64) :
    (m.isDone max = true ∧ m.run max = (.ok m.report, m)) ∨
    (m.isHalted = false ∧ m.now.steps < max ∧ m.action? = none ∧
      m.run max = (.error m.stuck, m)) ∨
    ∃ m', m.now.steps < max ∧ m.Applies m' ∧ m.run max = m'.run max := by
  cases hdone : m.isDone max with
  | true => exact .inl ⟨rfl, run_of_isDone hdone⟩
  | false =>
    simp only [isDone, Bool.or_eq_false_iff, decide_eq_false_iff_not, UInt64.not_le] at hdone
    obtain ⟨hh, hlt⟩ := hdone
    cases ha : m.action? with
    | none => exact .inr (.inl ⟨hh, hlt, rfl, run_of_action?_eq_none hh hlt ha⟩)
    | some a =>
      have happ : m.Applies { m with now := m.apply a } := ⟨hh, a, ha, rfl⟩
      exact .inr (.inr ⟨_, hlt, happ, happ.run_eq hlt⟩)

/-- A run goes on from any machine that it passes below the limit. -/
theorem ReachesIn.run_eq {n : Nat} {max : UInt64} (h : m.ReachesIn n m')
    (hn : 0 < n → m.now.steps.toNat + n ≤ max.toNat) : m.run max = m'.run max := by
  induction h with
  | zero => rfl
  | @step n m₁ m₂ hr ha ih =>
    have hle := hn (Nat.succ_pos n)
    have hmax := max.toNat_lt
    have hsteps := hr.toNat_steps (by rw [UInt64.size]; omega)
    have hlt : m₁.now.steps < max := UInt64.lt_iff_toNat_lt.2 (by omega)
    rw [ih fun _ => by omega, ha.run_eq hlt]

/-- Where a run ends: some rules were applied, none of them at the limit, and then the run is
over or no rule applies. -/
theorem exists_run_end (m : Machine) (max : UInt64) : ∃ n m', m.ReachesIn n m' ∧
    m'.now.steps.toNat = m.now.steps.toNat + n ∧ (0 < n → m'.now.steps ≤ max) ∧
    ((m'.isDone max = true ∧ m.run max = (.ok m'.report, m')) ∨
      m'.isHalted = false ∧ m'.now.steps < max ∧ m'.action? = none ∧
        m.run max = (.error m'.stuck, m')) := by
  induction hleft : max.toNat - m.now.steps.toNat generalizing m with
  | zero =>
    have hle : max ≤ m.now.steps := UInt64.le_iff_toNat_le.2 (by omega)
    have hdone : m.isDone max = true := by simp [isDone, hle]
    exact ⟨0, m, .zero, rfl, by simp, .inl ⟨hdone, run_of_isDone hdone⟩⟩
  | succ left ih =>
    obtain hdone | hstuck | ⟨m₁, hlt, ha, hrun⟩ := m.run_cases max
    · exact ⟨0, m, .zero, rfl, by simp, .inl hdone⟩
    · exact ⟨0, m, .zero, rfl, by simp, .inr hstuck⟩
    · have hsteps := ha.toNat_steps hlt
      have hlt := UInt64.lt_iff_toNat_lt.1 hlt
      obtain ⟨n, m', hr, hn, hle, hend⟩ := ih m₁ (by omega)
      rw [hrun]
      refine ⟨n + 1, m', hr.head ha, by omega, fun _ => ?_, hend⟩
      cases n with
      | zero => exact UInt64.le_iff_toNat_le.2 (by omega)
      | succ n => exact hle (Nat.succ_pos n)

/-- Where a run from the start ends: halted within the limit, at the limit, or below it where no
rule applies. The step count tells how many rules were applied. -/
theorem exists_run_end_of_start (h0 : m.now.steps = 0) (max : UInt64) :
    ∃ m', m.ReachesIn m'.now.steps.toNat m' ∧ m'.now.steps ≤ max ∧
      ((m'.isHalted = true ∨ m'.now.steps = max) ∧ m.run max = (.ok m'.report, m') ∨
        m'.isHalted = false ∧ m'.now.steps < max ∧ m'.action? = none ∧
          m.run max = (.error m'.stuck, m')) := by
  obtain ⟨n, m', hr, hn, hle, hend⟩ := m.exists_run_end max
  rw [h0, UInt64.toNat_zero, Nat.zero_add] at hn
  have hsteps : m'.now.steps ≤ max := by
    by_cases hpos : 0 < n
    · exact hle hpos
    · exact UInt64.le_iff_toNat_le.2 (by omega)
  rw [← hn] at hr
  refine ⟨m', hr, hsteps, ?_⟩
  obtain ⟨hdone, hrun⟩ | hstuck := hend
  · simp only [isDone, Bool.or_eq_true, decide_eq_true_eq] at hdone
    exact .inl ⟨hdone.imp_right (UInt64.le_antisymm hsteps), hrun⟩
  · exact .inr hstuck

/-- A run from the start that gets to the halt state within the limit ends there. -/
theorem ReachesIn.run_of_isHalted {n : Nat} {max : UInt64} (h : m.ReachesIn n m')
    (h0 : m.now.steps = 0) (hn : n ≤ max.toNat) (hh : m'.isHalted = true) :
    m.run max = (.ok m'.report, m') ∧ m'.now.steps.toNat = n := by
  have hzero : m.now.steps.toNat = 0 := by rw [h0, UInt64.toNat_zero]
  have hmax := max.toNat_lt
  have hsteps := h.toNat_steps (by rw [UInt64.size]; omega)
  refine ⟨?_, by omega⟩
  rw [h.run_eq fun _ => by omega, run_of_isDone (by simp [isDone, hh])]

/-- A run from the start that gets stuck below the limit fails there. -/
theorem ReachesIn.run_of_stuck {n : Nat} {max : UInt64} (h : m.ReachesIn n m')
    (h0 : m.now.steps = 0) (hn : n < max.toNat) (hh : m'.isHalted = false)
    (ha : m'.action? = none) :
    m.run max = (.error m'.stuck, m') := by
  have hzero : m.now.steps.toNat = 0 := by rw [h0, UInt64.toNat_zero]
  have hmax := max.toNat_lt
  have hsteps := h.toNat_steps (by rw [UInt64.size]; omega)
  have hlt : m'.now.steps < max := UInt64.lt_iff_toNat_lt.2 (by omega)
  rw [h.run_eq fun _ => by omega, run_of_action?_eq_none hh hlt ha]

theorem report_of_run {max : UInt64} {r : Report} (h : m.run max = (.ok r, m')) :
    r = m'.report := by
  obtain ⟨_, _, _, _, _, ⟨_, hrun⟩ | ⟨_, _, _, hrun⟩⟩ := m.exists_run_end max
  · cases h.symm.trans hrun
    rfl
  · cases h.symm.trans hrun

section Resumed

variable {max max' : UInt64} (hle : max ≤ max')
include hle

/-- A run that ended without a failure can be taken up again with a higher limit. -/
theorem run_run_of_ok {r : Report} (h : m.run max = (.ok r, m')) : m'.run max' = m.run max' := by
  obtain ⟨n, m₁, hr, hn, hbound, ⟨_, hrun⟩ | ⟨_, _, _, hrun⟩⟩ := m.exists_run_end max
  · obtain ⟨_, rfl⟩ := Prod.mk.inj (h.symm.trans hrun)
    refine (hr.run_eq fun hpos => ?_).symm
    have hlimit := UInt64.le_iff_toNat_le.1 (UInt64.le_trans (hbound hpos) hle)
    omega
  · cases h.symm.trans hrun

theorem run_eq_of_error {e : Stuck} (h : m.run max = (.error e, m')) :
    m.run max' = (.error e, m') := by
  obtain ⟨n, m₁, hr, hn, hbound, ⟨_, hrun⟩ | ⟨hh, hlt, ha, hrun⟩⟩ := m.exists_run_end max
  · cases h.symm.trans hrun
  · obtain ⟨_, rfl⟩ := Prod.mk.inj (h.symm.trans hrun)
    have hlt' : m'.now.steps < max' := UInt64.lt_of_lt_of_le hlt hle
    have hlimit := UInt64.lt_iff_toNat_lt.1 hlt'
    rw [hr.run_eq fun _ => by omega, run_of_action?_eq_none hh hlt' ha, ← h, hrun]

theorem run_eq_of_halted {r : Report} (h : m.run max = (.ok r, m')) (hr : r.halted = true) :
    m.run max' = (.ok r, m') := by
  obtain rfl := report_of_run h
  have hh : m'.isHalted = true := hr
  rw [← run_run_of_ok hle h, run_of_isDone (by simp [isDone, hh])]

end Resumed

end TapeMachine.Machine
