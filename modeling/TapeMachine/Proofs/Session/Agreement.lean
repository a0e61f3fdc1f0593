import TapeMachine.Proofs.Machine.Bounded
import TapeMachine.Proofs.Session.Recorded

/-!
# All ways of running agree

A program can be run in one go, its machine can be asked for a number of steps, and a session can be
run or stepped by somebody else's loop. Up to the same limit these end with the same machine and the
same outcome, and recording a history makes no difference. Within its limit a session that is asked
for a number of steps does what its machine would do alone, but a session that is asked for none
reports a machine that goes on even if it has halted.
-/

namespace TapeMachine.Session

/-- The session after one step, whatever the step gives back. -/
def next (s : Session) : Session :=
  s.step.2

/-- Running a session does to its machine what running the machine does, and reports the same. -/
theorem run_machine (s : Session) :
    s.run.1 = (s.machine.run s.maxSteps).1 ∧ s.run.2.machine = (s.machine.run s.maxSteps).2 := by
  induction s using Session.limit_induction with
  | halted s hh =>
    rw [run_of_isHalted hh, Machine.run_of_isDone (by simp [Machine.isDone, hh])]
    exact ⟨rfl, rfl⟩
  | limit s hh hle =>
    rw [run_of_limit hh hle, Machine.run_of_isDone (by simp [Machine.isDone, hle])]
    exact ⟨rfl, rfl⟩
  | stuck s hh hlt ha =>
    rw [run_of_stuck hh hlt ha, Machine.run_of_action?_eq_none hh hlt ha]
    exact ⟨rfl, rfl⟩
  | advance s m hlt ha ih =>
    rw [run_of_applies hlt ha, ha.run_eq hlt]
    exact ih

/-- Somebody who steps a session as long as it goes on ends where `run` does. -/
theorem exists_last_step (s : Session) :
    ∃ j, (∀ i < j, (next^[i] s).step.1 = .ok (some .running)) ∧
      (next^[j] s).step.1 ≠ .ok (some .running) ∧
      ((next^[j] s).step.1.map fun _ => (next^[j] s).step.2.machine.report) = s.run.1 ∧
      (next^[j] s).step.2 = s.run.2 := by
  induction s using Session.run.induct with
  | case1 s s' hstep ih =>
    obtain ⟨j, hbefore, hlast, hreport, hend⟩ := ih
    have hnext : next s = s' := congrArg Prod.snd hstep
    rw [run_of_step_running hstep]
    refine ⟨j + 1, ?_, ?_⟩
    · intro i hi
      cases i with
      | zero => exact congrArg Prod.fst hstep
      | succ i =>
        rw [Function.iterate_succ_apply, hnext]
        exact hbefore i (Nat.lt_of_succ_lt_succ hi)
    · rw [Function.iterate_succ_apply, hnext]
      exact ⟨hlast, hreport, hend⟩
  | case2 s r s' hr hstep =>
    rw [run_of_step_ok hstep hr]
    refine ⟨0, fun i hi => absurd hi (Nat.not_lt_zero i), ?_⟩
    rw [Function.iterate_zero_apply, hstep]
    exact ⟨fun heq => hr (by cases heq; rfl), rfl, rfl⟩
  | case3 s e s' hstep =>
    rw [run_of_step_error hstep]
    refine ⟨0, fun i hi => absurd hi (Nat.not_lt_zero i), ?_⟩
    rw [Function.iterate_zero_apply, hstep]
    exact ⟨fun heq => (by cases heq), rfl, rfl⟩

/-- Within the limit, a number of steps does to the machine of a session what it does to the machine
alone. Where there is a step to make, or a machine to go on with, it reports the same. -/
theorem stepN_within_limit (s : Session) (n : Nat)
    (h : s.machine.now.steps.toNat + n ≤ s.maxSteps.toNat) :
    (s.stepN n).2.machine = (s.machine.stepN n).2 ∧
      (n ≠ 0 ∨ s.machine.isHalted = false → (s.stepN n).1 = (s.machine.stepN n).1.map some) := by
  induction n generalizing s with
  | zero =>
    refine ⟨rfl, fun hgo => ?_⟩
    have hh : s.machine.isHalted = false := hgo.resolve_left (fun hne => hne rfl)
    rw [stepN, Machine.stepN, Machine.signal, hh]
    rfl
  | succ n ih =>
    obtain ⟨hh, hs⟩ | ⟨_, hle, _⟩ | ⟨hh, _, ha, hs⟩ | ⟨m, hlt, ha, hs⟩ := s.step_cases
    · rw [stepN, hs, Machine.stepN_of_isHalted hh]
      exact ⟨rfl, fun _ => rfl⟩
    · -- The limit leaves room for a step.
      have hle := UInt64.le_iff_toNat_le.1 hle
      omega
    · rw [stepN, hs, Machine.stepN_succ_of_action?_eq_none hh ha]
      exact ⟨rfl, fun _ => rfl⟩
    · rw [stepN, hs, ha.stepN_succ]
      cases hm : m.isHalted with
      | true =>
        rw [Machine.signal, if_pos hm, Machine.stepN_of_isHalted hm]
        exact ⟨rfl, fun _ => rfl⟩
      | false =>
        have hsteps := ha.toNat_steps hlt
        have hroom : m.now.steps.toNat + n ≤ s.maxSteps.toNat := by omega
        rw [Machine.signal, hm]
        obtain ⟨hmachine, hreport⟩ := ih (s.advanceTo m) hroom
        exact ⟨hmachine, fun _ => hreport (.inr hm)⟩

/-- A freshly loaded machine that is asked for `max` steps, a program run with the limit `max`,
and a session with that limit, recorded or not, that is run or stepped until it stops, all end
with the same machine and the same outcome. Asking any machine for `a` steps and then for `b` is
asking it for `a + b`. -/
theorem ways_to_run_agree :
    (∀ (p : Program) (input : String) (m : Machine), p.machine input = .ok m → ∀ max : UInt64,
      let ended := m.run max
      p.run input (some max) = ended.1.mapError .stuck ∧
      ((m.stepN max.toNat).1.map fun _ => (m.stepN max.toNat).2.report) = ended.1 ∧
      (m.stepN max.toNat).2 = ended.2 ∧
      ∀ recorded, ∃ s₀, start p input recorded = .ok s₀ ∧
        let s := s₀.setMaxSteps max
        s.run.1 = ended.1 ∧ s.run.2.machine = ended.2 ∧
        ∃ j, (∀ i < j, (next^[i] s).step.1 = .ok (some .running)) ∧
          let last := (next^[j] s).step
          last.1 ≠ .ok (some .running) ∧
          (last.1.map fun _ => last.2.machine.report) = ended.1 ∧ last.2.machine = ended.2) ∧
    ∀ (m : Machine) (a b : Nat), match m.stepN a with
      | (.ok _, m') => m.stepN (a + b) = m'.stepN b
      | (.error e, m') => m.stepN (a + b) = (.error e, m') := by
  constructor
  · intro p input m hm max ended
    have h0 := Machine.fresh_of_ofInput (Program.machine_eq_ok_iff.1 hm)
    have hsteps : m.run max = ((m.stepN max.toNat).1.map fun _ => (m.stepN max.toNat).2.report,
        (m.stepN max.toNat).2) := Machine.run_eq_stepN (by rw [h0.steps]; simp)
    refine ⟨?_, ?_, ?_, ?_⟩
    · simp only [Program.run, hm, bind, Except.bind, Option.getD_some, ended]
    · simp only [ended, hsteps]
    · simp only [ended, hsteps]
    · intro recorded
      refine ⟨_, start_of_machine hm recorded, ?_⟩
      intro s
      obtain ⟨hreport, hmachine⟩ := run_machine s
      obtain ⟨j, hbefore, hlast, hlastReport, hlastEnd⟩ := exists_last_step s
      refine ⟨hreport, hmachine, j, hbefore, hlast, ?_, ?_⟩
      · exact hlastReport.trans hreport
      · rw [hlastEnd]
        exact hmachine
  · intro m a b
    split
    · rename_i h
      exact Machine.stepN_add_of_ok h b
    · rename_i h
      exact Machine.stepN_add_of_error h b

/-- Limit and halt state at once: the second rule is the last one allowed. -/
theorem ways_to_run_agree_at_limit :
    ∃ p m, Program.ofText {} "INIT a INIT b R\nINIT _ HALT c L" = .ok p ∧ p.machine "a" = .ok m ∧
      p.run "a" (some 2) = (m.run 2).1.mapError .stuck ∧ (m.stepN 2).2 = (m.run 2).2 := by
  obtain ⟨p, m, hp, hm, _⟩ := Program.exists_machine {} "INIT a INIT b R\nINIT _ HALT c L" "a"
    (fun _ _ => true) (by decide +kernel)
  obtain ⟨hrun, _, hend, _⟩ := ways_to_run_agree.1 p "a" m hm 2
  exact ⟨p, m, hp, hm, hrun, hend⟩

/-- A session that is asked for no more steps than its limit allows leaves its machine as the
machine alone would be left. Asked for none it always reports that the machine goes on; asked for
some it reports what the machine alone would. So the two reports differ just if no step is asked of
a session that has halted. -/
theorem stepN_agrees_within_limit {s : Session} {n : Nat}
    (h : s.machine.now.steps.toNat + n ≤ s.maxSteps.toNat) :
    (s.stepN n).2.machine = (s.machine.stepN n).2 ∧
    (s.stepN n).1 = (if n = 0 then .ok (some .running) else (s.machine.stepN n).1.map some) ∧
    ((s.stepN n).1 = (s.machine.stepN n).1.map some ↔ ¬ (n = 0 ∧ s.machine.isHalted = true)) := by
  obtain ⟨hmachine, hreport⟩ := s.stepN_within_limit n h
  refine ⟨hmachine, ?_, ?_⟩
  · by_cases hn : n = 0
    · subst hn
      rfl
    · rw [if_neg hn]
      exact hreport (.inl hn)
  · constructor
    · rintro hsame ⟨rfl, hh⟩
      rw [stepN, Machine.stepN_of_isHalted hh] at hsame
      cases hsame
    · intro hgo
      refine hreport ?_
      rw [not_and_or, Bool.not_eq_true] at hgo
      exact hgo

/-- Rewound to its second step, the session is asked for more steps than are left until it halts. -/
theorem stepN_agrees_within_limit_rewound :
    ∃ p m s, Program.ofText {} "INIT a INIT b R\nINIT _ HALT c L" = .ok p ∧ p.machine "aa" = .ok m ∧
      start p "aa" true = .ok s ∧
      let t := s.performAll [.stepN 2, .rewind 1]
      t.machine.now.steps.toNat + 5 ≤ t.maxSteps.toNat ∧
        (t.stepN 5).2.machine = (t.machine.stepN 5).2 ∧
        (t.stepN 5).1 = (t.machine.stepN 5).1.map some := by
  obtain ⟨p, m, hp, hm, htest⟩ := Program.exists_machine {} "INIT a INIT b R\nINIT _ HALT c L" "aa"
    (fun p m =>
      let s : Session := ⟨m, some .empty, p.settings.maxSteps⟩
      let t := s.performAll [.stepN 2, .rewind 1]
      t.machine.now.steps.toNat + 5 ≤ t.maxSteps.toNat) (by decide +kernel)
  have hroom := of_decide_eq_true htest
  obtain ⟨hmachine, hreport, _⟩ := stepN_agrees_within_limit hroom
  exact ⟨p, m, _, hp, hm, start_of_machine hm true, hroom, hmachine, hreport⟩

/-- Asked for no step, a session that has halted reports that it goes on, and its
machine that it has halted. -/
theorem stepN_zero_differs_when_halted :
    ∃ p m s, Program.ofText {} "INIT a HALT b R" = .ok p ∧ p.machine "a" = .ok m ∧
      start p "a" false = .ok s ∧
      let t := s.performAll [.step]
      t.machine.now.steps.toNat + 0 ≤ t.maxSteps.toNat ∧
        (t.machine.stepN 0).1 = .ok .halted ∧ (t.stepN 0).1 = .ok (some .running) := by
  obtain ⟨p, m, hp, hm, htest⟩ := Program.exists_machine {} "INIT a HALT b R" "a"
    (fun p m =>
      let s : Session := ⟨m, none, p.settings.maxSteps⟩
      let t := s.performAll [.step]
      decide (t.machine.now.steps.toNat + 0 ≤ t.maxSteps.toNat) && t.machine.isHalted)
    (by decide +kernel)
  simp only [Bool.and_eq_true, decide_eq_true_eq] at htest
  obtain ⟨hroom, hh⟩ := htest
  refine ⟨p, m, _, hp, hm, start_of_machine hm false, hroom, ?_, rfl⟩
  exact congrArg Prod.fst (Machine.stepN_of_isHalted hh 0)

end TapeMachine.Session
