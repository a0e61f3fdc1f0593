import TapeMachine.Proofs.Session.Agreement

/-!
# Step limits

A run up to a limit ends in the halt state, at the limit, or where no rule applies. With a higher
limit it ends the same unless it had ended at the limit, and then it can be taken up where it was
left. A session applies rules below its limit only, whatever was done with it before.

## Main definitions

- `Session.Climbs`: rules are applied one after the other, each below the limit
- `Session.WithinLimit`: what an operation may do to the machine of a session
-/

namespace TapeMachine.Session

/-- From `s` to the other session rules are applied one after the other, each below the limit. -/
inductive Climbs (s : Session) : Session → Prop where
  | refl : Climbs s s
  | advance {t : Session} {m : Machine} : Climbs s t → t.machine.now.steps < t.maxSteps →
      t.machine.Applies m → Climbs s (t.advanceTo m)

/-- The operations that step apply rules below the limit; the others go to a configuration that was
kept, to that of the input, or nowhere. -/
def WithinLimit (s : Session) : Operation → Prop
  | .step => s.Climbs (s.perform .step)
  | .stepN n => s.Climbs (s.perform (.stepN n))
  | .run => s.Climbs (s.perform .run)
  | .rewind index => (s.perform (.rewind index)).machine = s.machine ∨
      ∃ c, s.seek index = some c ∧ (s.perform (.rewind index)).machine = s.machine.restore c
  | .reset => (s.perform .reset).machine = s.machine.reset
  | .setMaxSteps max => (s.perform (.setMaxSteps max)).machine = s.machine

variable {s t u : Session}

theorem Climbs.trans (h : s.Climbs t) (h' : t.Climbs u) : s.Climbs u := by
  induction h' with
  | refl => exact h
  | advance _ hlt ha ih => exact .advance ih hlt ha

theorem climbs_step (s : Session) : s.Climbs s.step.2 := by
  obtain ⟨_, hs⟩ | ⟨_, _, hs⟩ | ⟨_, _, _, hs⟩ | ⟨m, hlt, ha, hs⟩ := s.step_cases
  · rw [hs]
    exact .refl
  · rw [hs]
    exact .refl
  · rw [hs]
    exact .refl
  · rw [hs]
    exact .advance .refl hlt ha

theorem climbs_stepN (s : Session) (n : Nat) : s.Climbs (s.stepN n).2 := by
  induction n generalizing s with
  | zero => exact .refl
  | succ n ih =>
    have hstep := s.climbs_step
    rw [stepN]
    split
    · rename_i next heq
      rw [heq] at hstep
      exact hstep.trans (ih next)
    · exact hstep

theorem climbs_run (s : Session) : s.Climbs s.run.2 := by
  induction s using Session.limit_induction with
  | halted s hh =>
    rw [run_of_isHalted hh]
    exact .refl
  | limit s hh hle =>
    rw [run_of_limit hh hle]
    exact .refl
  | stuck s hh hlt ha =>
    rw [run_of_stuck hh hlt ha]
    exact .refl
  | advance s m hlt ha ih =>
    have hfirst : s.Climbs (s.advanceTo m) := .advance .refl hlt ha
    rw [run_of_applies hlt ha]
    exact hfirst.trans ih

theorem withinLimit (s : Session) (o : Operation) : s.WithinLimit o := by
  cases o with
  | step => exact s.climbs_step
  | stepN n => exact s.climbs_stepN n
  | run => exact s.climbs_run
  | rewind index =>
    cases hc : s.seek index with
    | none =>
      left
      rw [perform, rewind, hc]
    | some c =>
      right
      exact ⟨c, hc, by rw [perform, rewind_of_seek hc]⟩
  | reset => rfl
  | setMaxSteps max => rfl

theorem run_setMaxSteps (s : Session) (max : UInt64) :
    (s.setMaxSteps max).run.1 = (s.machine.run max).1 ∧
      (s.setMaxSteps max).run.2.machine = (s.machine.run max).2 :=
  (s.setMaxSteps max).run_machine

/-- A session that ended without a failure goes on under a higher limit as its machine does. -/
theorem run_setMaxSteps_run {m m' : Machine} {r : Report} {max max' : UInt64} (hle : max ≤ max')
    (hs : s.machine = m) (h : m.run max = (.ok r, m')) :
    (s.setMaxSteps max).run.1 = .ok r ∧ (s.setMaxSteps max).run.2.machine = m' ∧
      ((s.setMaxSteps max).run.2.setMaxSteps max').run.1 = (m.run max').1 ∧
      ((s.setMaxSteps max).run.2.setMaxSteps max').run.2.machine = (m.run max').2 := by
  obtain ⟨hreport, hmachine⟩ := s.run_setMaxSteps max
  rw [hs, h] at hreport hmachine
  have hpaused : (s.setMaxSteps max).run.2.machine = m' := hmachine
  obtain ⟨hreport', hmachine'⟩ := (s.setMaxSteps max).run.2.run_setMaxSteps max'
  rw [hpaused, Machine.run_run_of_ok hle h] at hreport' hmachine'
  exact ⟨hreport, hmachine, hreport', hmachine'⟩

/-- On a fresh machine, a run that does not fail has applied as many rules as it reports, and has
halted within the limit or stopped right at it; one that fails has stopped below the limit. With a
higher limit a run that halted or failed is the same, and any other goes on from where it stopped.
After any operations, a session applies rules below its limit only. -/
theorem step_limit_is_exact_and_resumable {p : Program} {input : String} {m : Machine}
    (hm : p.machine input = .ok m) :
    (∀ max, p.run input (some max) = (m.run max).1.mapError .stuck ∧
      match m.run max with
      | (.ok r, m') => r = m'.report ∧ m.ReachesIn r.steps.toNat m' ∧
          if r.halted then r.steps ≤ max ∧ m'.now.state = p.settings.haltState
          else r.steps = max ∧ m'.now.state ≠ p.settings.haltState
      | (.error e, m') => e = m'.stuck ∧ (∃ n < max.toNat, m.ReachesIn n m') ∧
          e.state ≠ p.settings.haltState ∧ p.table.get? e.state e.symbol = none ∧
          e.input = input) ∧
    (∀ max max', max ≤ max' →
      (∀ e m', m.run max = (.error e, m') → m.run max' = (.error e, m')) ∧
      ∀ r m', m.run max = (.ok r, m') →
        (r.halted = true → m.run max' = (.ok r, m')) ∧ m'.run max' = m.run max' ∧
        ∀ recorded, ∃ s, start p input recorded = .ok s ∧
          let paused := (s.setMaxSteps max).run
          let ended := (paused.2.setMaxSteps max').run
          paused.1 = .ok r ∧ paused.2.machine = m' ∧
          ended.1 = (m.run max').1 ∧ ended.2.machine = (m.run max').2) ∧
    ∀ recorded s, start p input recorded = .ok s → ∀ operations o,
      (s.performAll operations).WithinLimit o := by
  have hload := Program.machine_eq_ok_iff.1 hm
  have h0 : m.now.steps.toNat = 0 := by
    rw [(Machine.fresh_of_ofInput hload).steps]
    rfl
  have hmachine := Machine.now_of_ofInput hload
  have hsettings : m.settings = p.settings := by rw [hmachine]
  have htable : m.table = p.table := by rw [hmachine]
  have hinput : m.input = input := by rw [hmachine]
  refine ⟨?_, ?_, fun recorded s _ operations o => withinLimit _ o⟩
  · intro max
    refine ⟨by simp only [Program.run, hm, bind, Except.bind, Option.getD_some], ?_⟩
    obtain ⟨n, m', hr, hn, hle, ⟨hdone, hrun⟩ | ⟨hh, hlt, ha, hrun⟩⟩ := m.exists_run_end max
    · rw [hrun]
      obtain rfl : n = m'.now.steps.toNat := by omega
      refine ⟨rfl, hr, ?_⟩
      have hsteps : m'.now.steps ≤ max := by
        by_cases hpos : 0 < m'.now.steps.toNat
        · exact hle hpos
        · exact UInt64.le_iff_toNat_le.2 (by omega)
      have hstate : m'.isHalted = true ↔ m'.now.state = p.settings.haltState := by
        rw [Machine.isHalted, beq_iff_eq, hr.settings_eq, hsettings]
      show if m'.isHalted then _ else _
      cases hh : m'.isHalted with
      | true => exact ⟨hsteps, hstate.1 hh⟩
      | false =>
        -- Over without having halted: the limit is reached, and it was not passed.
        have hmax : max ≤ m'.now.steps := by simpa [Machine.isDone, hh] using hdone
        exact ⟨UInt64.le_antisymm hsteps hmax, fun hs => by simp [hstate.2 hs] at hh⟩
    · rw [hrun]
      have hlt := UInt64.lt_iff_toNat_lt.1 hlt
      refine ⟨rfl, ⟨n, by omega, hr⟩, ?_, ?_, ?_⟩
      · rw [Machine.isHalted, beq_eq_false_iff_ne, hr.settings_eq, hsettings] at hh
        exact hh
      · rw [← htable, ← hr.table_eq]
        exact ha
      · exact hr.input_eq.trans hinput
  · intro max max' hle
    refine ⟨fun e m' => Machine.run_eq_of_error hle, ?_⟩
    intro r m' h
    refine ⟨Machine.run_eq_of_halted hle h, Machine.run_run_of_ok hle h, ?_⟩
    intro recorded
    exact ⟨_, start_of_machine hm recorded, run_setMaxSteps_run hle rfl h⟩

/-- Stopped at the limit 1, and taken up again with the limit 2, which is just where the machine
halts. -/
theorem step_limit_is_exact_and_resumable_up_to_halt :
    ∃ p m, Program.ofText {} "INIT a INIT b R\nINIT _ HALT c L" = .ok p ∧ p.machine "a" = .ok m ∧
      ∃ r m' s, m.run 1 = (.ok r, m') ∧ start p "a" true = .ok s ∧ m'.run 2 = m.run 2 ∧
        ((s.setMaxSteps 1).run.2.setMaxSteps 2).run.2.machine = (m.run 2).2 := by
  obtain ⟨p, m, hp, hm, htest⟩ := Program.exists_machine {} "INIT a INIT b R\nINIT _ HALT c L" "a"
    (fun _ m => m.now.steps == 0 && (m.stepN 1).1.isOk) (by decide +kernel)
  simp only [Bool.and_eq_true, beq_iff_eq] at htest
  have hrun : m.run 1 = ((m.stepN 1).1.map fun _ => (m.stepN 1).2.report, (m.stepN 1).2) :=
    Machine.run_eq_stepN (by rw [htest.1]; rfl)
  cases hstepN : (m.stepN 1).1 with
  | error e =>
    rw [hstepN] at htest
    cases htest.2
  | ok signal =>
    rw [hstepN] at hrun
    obtain ⟨_, hresume, _⟩ := step_limit_is_exact_and_resumable hm
    obtain ⟨_, hgo, hsession⟩ := (hresume 1 2 (by decide)).2 _ _ hrun
    obtain ⟨s, hs, _, _, _, hend⟩ := hsession true
    exact ⟨p, m, hp, hm, _, _, s, hrun, hs, hgo, hend⟩

end TapeMachine.Session
