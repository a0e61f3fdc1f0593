import TapeMachine.Proofs.Machine.Bounded

/-!
# Machines in lockstep

Two machines are compared by a relation that one applied rule keeps. If the second machine has a
rule wherever the first has one (`Machine.Simulation`), whatever the first does without a failure
the second does as well. If in addition it has none where the first has none (`Machine.Lockstep`),
the two also fail at the same place. Then all that operations give back is the same, as far as
related machines show the same (`Machine.Translates`).
-/

namespace TapeMachine.Machine

/-- Related machines halt together, and for each rule that the first applies the second applies one
that leaves them related. -/
structure Simulation (R : Machine → Machine → Prop) : Prop where
  isHalted : ∀ {m m'}, R m m' → m'.isHalted = m.isHalted
  applies : ∀ {m m' m₁}, R m m' → m.Applies m₁ → ∃ m₁', m'.Applies m₁' ∧ R m₁ m₁'

/-- Related machines also get stuck together. -/
structure Lockstep (R : Machine → Machine → Prop) : Prop extends Simulation R where
  stuck : ∀ {m m'}, R m m' → m.isHalted = false → m.action? = none → m'.action? = none

/-- What can be seen of related machines is the same in translation. -/
structure Translates (R : Machine → Machine → Prop) (now : Configuration → Configuration)
    (report : Report → Report) (stuck : Stuck → Stuck) : Prop where
  now_eq : ∀ {m m'}, R m m' → m'.now = now m.now
  report_eq : ∀ {m m'}, R m m' → m'.report = report m.report
  stuck_eq : ∀ {m m'}, R m m' → m'.stuck = stuck m.stuck
  steps_eq : ∀ c, (now c).steps = c.steps

variable {R : Machine → Machine → Prop} {m m' m₁ : Machine} {n : Nat}
  {now : Configuration → Configuration} {report : Report → Report} {stuck : Stuck → Stuck}

theorem Translates.now_steps_eq (hT : Translates R now report stuck) (h : R m m') :
    m'.now.steps = m.now.steps := by
  rw [hT.now_eq h, hT.steps_eq]

namespace Simulation

variable (hR : Simulation R) (h : R m m')
include hR h

theorem signal_eq : m'.signal = m.signal := by
  rw [signal, signal, hR.isHalted h]

theorem reachesIn (hr : m.ReachesIn n m₁) : ∃ m₁', m'.ReachesIn n m₁' ∧ R m₁ m₁' := by
  induction hr with
  | zero => exact ⟨m', .zero, h⟩
  | step _ ha ih =>
    obtain ⟨m₁', hr', h₁⟩ := ih
    obtain ⟨m₂', ha', h₂⟩ := hR.applies h₁ ha
    exact ⟨m₂', hr'.step ha', h₂⟩

/-- Where steps are counted alike, a run that does not fail is matched by a run up to the same
limit. -/
theorem run_of_ok {max : UInt64} {r : Report}
    (hsteps : ∀ {m m'}, R m m' → m'.now.steps = m.now.steps)
    (hrun : m.run max = (.ok r, m₁)) : ∃ m₁', m'.run max = (.ok m₁'.report, m₁') ∧ R m₁ m₁' := by
  obtain ⟨k, m₂, hr, hk, hbound, ⟨hdone, hend⟩ | ⟨_, _, _, hend⟩⟩ := m.exists_run_end max
  · obtain ⟨_, rfl⟩ := Prod.mk.inj (hend.symm.trans hrun)
    obtain ⟨m₂', hr', h₂⟩ := hR.reachesIn h hr
    have hdone' : m₂'.isDone max = true := by
      rwa [isDone, hR.isHalted h₂, hsteps h₂]
    refine ⟨m₂', ?_, h₂⟩
    rw [hr'.run_eq fun hpos => ?_, run_of_isDone hdone']
    have hlimit := UInt64.le_iff_toNat_le.1 (hbound hpos)
    rw [hsteps h]
    omega
  · cases hend.symm.trans hrun

end Simulation

namespace Lockstep

variable (hR : Lockstep R) (h : R m m')
include hR h

/-- Asked for the same number of steps, related machines go on, halt or fail alike. -/
theorem stepN_cases (n : Nat) :
    (∃ m₁ m₁', R m₁ m₁' ∧ m.stepN n = (.ok m₁.signal, m₁) ∧ m'.stepN n = (.ok m₁'.signal, m₁')) ∨
    ∃ m₁ m₁', R m₁ m₁' ∧ m.stepN n = (.error m₁.stuck, m₁) ∧
      m'.stepN n = (.error m₁'.stuck, m₁') := by
  induction n generalizing m m' with
  | zero => exact .inl ⟨m, m', h, rfl, rfl⟩
  | succ n ih =>
    obtain ⟨hh, _⟩ | ⟨hh, ha, _⟩ | ⟨m₁, ha, _⟩ := m.step_cases
    · have hh' : m'.isHalted = true := (hR.isHalted h).trans hh
      refine .inl ⟨m, m', h, ?_, ?_⟩
      · rw [stepN_of_isHalted hh, signal, if_pos hh]
      · rw [stepN_of_isHalted hh', signal, if_pos hh']
    · have hh' : m'.isHalted = false := (hR.isHalted h).trans hh
      exact .inr ⟨m, m', h, stepN_succ_of_action?_eq_none hh ha n,
        stepN_succ_of_action?_eq_none hh' (hR.stuck h hh ha) n⟩
    · obtain ⟨m₁', ha', h₁⟩ := hR.applies h ha
      rw [ha.stepN_succ, ha'.stepN_succ]
      exact ih h₁

/-- Related machines whose steps are counted alike end their runs up to the same limit alike. -/
theorem run_cases (hsteps : ∀ {m m'}, R m m' → m'.now.steps = m.now.steps) (max : UInt64) :
    (∃ m₁ m₁', R m₁ m₁' ∧ m.run max = (.ok m₁.report, m₁) ∧ m'.run max = (.ok m₁'.report, m₁')) ∨
    ∃ m₁ m₁', R m₁ m₁' ∧ m.run max = (.error m₁.stuck, m₁) ∧
      m'.run max = (.error m₁'.stuck, m₁') := by
  by_cases hle : max ≤ m.now.steps
  · have hle' : max ≤ m'.now.steps := by rwa [hsteps h]
    exact .inl ⟨m, m', h, run_of_isDone (by simp [isDone, hle]),
      run_of_isDone (by simp [isDone, hle'])⟩
  · have hlt := UInt64.lt_iff_toNat_lt.1 (UInt64.not_le.1 hle)
    obtain ⟨n, hn⟩ := Nat.exists_eq_add_of_le (Nat.le_of_lt hlt)
    have hn' : m'.now.steps.toNat + n = max.toNat := by rw [hsteps h, hn]
    rw [run_eq_stepN hn.symm, run_eq_stepN hn']
    obtain ⟨m₁, m₁', h₁, hs, hs'⟩ | ⟨m₁, m₁', h₁, hs, hs'⟩ := hR.stepN_cases h n
    · refine .inl ⟨m₁, m₁', h₁, ?_, ?_⟩
      · rw [hs]
        rfl
      · rw [hs']
        rfl
    · refine .inr ⟨m₁, m₁', h₁, ?_, ?_⟩
      · rw [hs]
        rfl
      · rw [hs']
        rfl

/-- Any number of steps leaves related machines, and a failure of the first is a failure of the
second in translation. -/
theorem stepN_mapError (hstuck : ∀ {m m'}, R m m' → m'.stuck = stuck m.stuck) (n : Nat) :
    (m'.stepN n).1 = (m.stepN n).1.mapError stuck ∧ R (m.stepN n).2 (m'.stepN n).2 := by
  obtain ⟨m₁, m₁', h₁, hs, hs'⟩ | ⟨m₁, m₁', h₁, hs, hs'⟩ := hR.stepN_cases h n
  · rw [hs, hs', hR.signal_eq h₁]
    exact ⟨rfl, h₁⟩
  · rw [hs, hs', hstuck h₁]
    exact ⟨rfl, h₁⟩

theorem stepN_eq (hT : Translates R now report stuck) (n : Nat) :
    (m'.stepN n).1 = (m.stepN n).1.mapError stuck ∧ (m'.stepN n).2.now = now (m.stepN n).2.now := by
  obtain ⟨hresult, hafter⟩ := hR.stepN_mapError h hT.stuck_eq n
  exact ⟨hresult, hT.now_eq hafter⟩

theorem run_eq (hT : Translates R now report stuck) (max : UInt64) :
    (m'.run max).1 = ((m.run max).1.map report).mapError stuck ∧
      (m'.run max).2.now = now (m.run max).2.now := by
  obtain ⟨m₁, m₁', h₁, hs, hs'⟩ | ⟨m₁, m₁', h₁, hs, hs'⟩ := hR.run_cases h hT.now_steps_eq max
  · rw [hs, hs', hT.report_eq h₁]
    exact ⟨rfl, hT.now_eq h₁⟩
  · rw [hs, hs', hT.stuck_eq h₁]
    exact ⟨rfl, hT.now_eq h₁⟩

end Lockstep

end TapeMachine.Machine
