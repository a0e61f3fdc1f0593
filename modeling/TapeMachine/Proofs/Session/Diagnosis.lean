import TapeMachine.Proofs.Session.Failures
import TapeMachine.Proofs.Session.Visited
import TapeMachine.Proofs.Table.Targets

/-!
# Where machines get stuck

A machine is in its first state or in one that a rule led it to
(`Machine.ReachesIn.state_cases`). The first state of a program has a rule, and a state that
rules lead to has one unless it is the halt state or dangling. So a program shows beforehand in
which states its machines can get stuck, whatever the input is.

## Main definitions

- `Machine.Fails`, `Session.Fails`: an operation ends in a failure
- `Program.Foresees`: the table of the program tells of a failure before any machine runs

## Main result

- `Program.stuck_states_are_diagnosed`: the dangling targets are the states without rules
  that machines can get stuck in, and every failure comes from one of them or from a
  missing rule of another state
-/

namespace TapeMachine

/-! ## Failing operations -/

namespace Machine

variable {m₀ m m' : Machine} {o : Operation} {e : Stuck} {n : Nat}

/-- Only operations that step can fail in this way. -/
inductive Fails (m : Machine) : Operation → Stuck → Prop where
  | step {e : Stuck} : m.step.1 = .error e → m.Fails .step e
  | stepN {n : Nat} {e : Stuck} : (m.stepN n).1 = .error e → m.Fails (.stepN n) e
  | run {max : UInt64} {e : Stuck} : (m.run max).1 = .error e → m.Fails (.run max) e

theorem Fails.visits (hv : m₀.Visits m) (h : m.Fails o e) : m₀.Visits (m.perform o) := by
  cases h with
  | step _ => exact hv.step
  | stepN _ => exact hv.stepN _
  | run _ => exact hv.run _

/-- The failure is that of the machine which is left. -/
theorem Fails.stuck (h : m.Fails o e) :
    (m.perform o).status = .stuck ∧ e = (m.perform o).stuck := by
  have hlast : (m.perform o).step = (.error e, m.perform o) := by
    cases h with
    | step h =>
      have hstep : m.step = (.error e, m.step.2) := Prod.ext h rfl
      obtain ⟨_, _, hsame⟩ := step_eq_error_iff.1 hstep
      rw [hsame] at hstep
      rwa [perform, hsame]
    | stepN h =>
      obtain ⟨_, _, hfails⟩ := failsAfter_of_stepN (Prod.ext h rfl)
      exact hfails.last_step
    | run h =>
      obtain ⟨_, _, hfails⟩ := failsAfter_of_run (Prod.ext h rfl)
      exact hfails.last_step
  obtain ⟨hstuck, he, _⟩ := step_eq_error_iff.1 hlast
  exact ⟨hstuck, he⟩

/-! ## States of a run -/

theorem Applies.state_mem_targets (h : m.Applies m') : m'.now.state ∈ m.table.targets := by
  obtain ⟨_, a, ha, rfl⟩ := h
  exact Table.mem_targets.2 ⟨_, _, a, ha, rfl⟩

theorem ReachesIn.state_cases (h : m₀.ReachesIn n m) :
    m.now.state = m₀.now.state ∨ m.now.state ∈ m₀.table.targets := by
  cases h with
  | zero => exact .inl rfl
  | step hr ha =>
    right
    rw [← hr.table_eq]
    exact ha.state_mem_targets

end Machine

namespace Session

/-- The operation fails in this session because the machine gets stuck. -/
inductive Fails (s : Session) : Operation → Stuck → Prop where
  | step {e : Stuck} : s.step.1 = .error e → s.Fails .step e
  | stepN {n : Nat} {e : Stuck} : (s.stepN n).1 = .error e → s.Fails (.stepN n) e
  | run {e : Stuck} : s.run.1 = .error e → s.Fails .run e

theorem Fails.stuck {s : Session} {o : Operation} {e : Stuck} (h : s.Fails o e) :
    (s.perform o).machine.status = .stuck ∧ e = (s.perform o).machine.stuck := by
  have hlast : (s.perform o).step = (.error e, s.perform o) := by
    cases h with
    | step h =>
      have hstep : s.step = (.error e, s.step.2) := Prod.ext h rfl
      have hsame := eq_of_step_error hstep
      rw [hsame] at hstep
      rwa [perform, hsame]
    | stepN h =>
      obtain ⟨_, _, hfails⟩ := failsAfter_of_stepN (Prod.ext h rfl)
      exact hfails.last_step
    | run h =>
      obtain ⟨_, hfails⟩ := failsAfter_of_run (Prod.ext h rfl)
      exact hfails.last_step
  obtain ⟨he, hstuck⟩ := stuck_of_step_error hlast
  exact ⟨hstuck, he⟩

end Session

/-! ## What a program tells -/

namespace Program

/-- The states that rules lead to, but that have no rules and are not the halt state. -/
def dangling (p : Program) : List String :=
  p.table.danglingTargets p.settings.haltState

/-- The state of the failure is dangling, or it has rules but none for the symbol. -/
def Foresees (p : Program) (e : Stuck) : Prop :=
  e.state ∈ p.dangling ∨ e.state ∈ p.table.states ∧ p.table.get? e.state e.symbol = none

variable {s : Settings} {text input : String} {p : Program} {m₀ m : Machine}

section Diagnosed

variable (hp : ofText s text = .ok p)
include hp

theorem mem_dangling_iff {state : String} :
    state ∈ p.dangling ↔ (∃ r ∈ p.rules, r.action.newState = state) ∧ state ≠ s.haltState ∧
      ∀ r ∈ p.rules, r.state ≠ state := by
  obtain ⟨_, _, ht, rfl⟩ := ofText_eq_ok_iff.1 hp
  rw [dangling, Table.mem_danglingTargets, Table.mem_targets_of_build ht,
    Table.mem_states_of_build ht]
  simp only [not_exists, not_and, ne_eq]

variable (hm : p.machine input = .ok m₀)
include hm

/-- A program has rules for the state in which its machines start. -/
theorem state_mem_of_visits (hv : m₀.Visits m) :
    m.now.state = s.haltState ∨ m.now.state ∈ p.table.states ∨ m.now.state ∈ p.dangling := by
  obtain ⟨_, _, ht, rfl⟩ := ofText_eq_ok_iff.1 hp
  have hload := machine_eq_ok_iff.1 hm
  obtain ⟨n, hr⟩ := hv.reachesIn (Machine.fresh_of_ofInput hload)
  have hcases := hr.state_cases
  rw [Machine.now_of_ofInput hload] at hcases
  obtain hstart | htarget := hcases
  · right; left
    rw [hstart]
    exact Table.init_mem_states_of_build ht
  · exact Table.mem_of_mem_targets htarget p.settings.haltState

theorem foresees_stuck (hv : m₀.Visits m) (hstuck : m.status = .stuck) : p.Foresees m.stuck := by
  have hstate := state_mem_of_visits hp hm hv
  obtain ⟨_, _, _, rfl⟩ := ofText_eq_ok_iff.1 hp
  have hload := machine_eq_ok_iff.1 hm
  obtain ⟨n, hr⟩ := hv.reachesIn (Machine.fresh_of_ofInput hload)
  obtain ⟨hh, ha⟩ := Machine.status_eq_stuck_iff.1 hstuck
  have hsettings : m.settings = p.settings := by
    rw [hr.settings_eq, Machine.now_of_ofInput hload]
  have htable : m.table = p.table := by
    rw [hr.table_eq, Machine.now_of_ofInput hload]
  rw [Machine.isHalted, hsettings, beq_eq_false_iff_ne] at hh
  rw [Machine.action?, htable] at ha
  -- A machine in the halt state is not stuck, which leaves the two other kinds.
  obtain hhalt | hrules | hdangling := hstate
  · exact absurd hhalt hh
  · exact .inr ⟨hrules, ha⟩
  · exact .inl hdangling

end Diagnosed

theorem step_of_mem_dangling (hsettings : m.settings = p.settings) (htable : m.table = p.table)
    (h : m.now.state ∈ p.dangling) : m.step = (.error m.stuck, m) := by
  obtain ⟨_, hhalt, hrules⟩ := Table.mem_danglingTargets.1 h
  refine Machine.step_of_action?_eq_none ?_ ?_
  · rwa [Machine.isHalted, hsettings, beq_eq_false_iff_ne]
  · rw [Machine.action?, htable]
    exact Table.get?_of_not_mem_states hrules _

/-- The dangling targets of a program are listed in ascending order, and are the states other than
the halt state that some rule leads to and none leaves. Whatever is done with a machine of the
program that was loaded with an input, it is in the halt state, in a state with a rule, or in a
dangling one; and only the halt state can be of two kinds. Any machine of the program fails in a
dangling state. Every failure of a loaded machine, with a session or without, comes in a dangling
state or in one with rules but none for the symbol; so if there is nothing dangling, the states that
machines get stuck in have rules. -/
theorem stuck_states_are_diagnosed (hp : ofText s text = .ok p) (hm : p.machine input = .ok m₀) :
    p.dangling.Pairwise (· < ·) ∧
    (∀ state, state ∈ p.dangling ↔ (∃ r ∈ p.rules, r.action.newState = state) ∧
      state ≠ s.haltState ∧
      ∀ r ∈ p.rules, r.state ≠ state) ∧
    (∀ state ∈ p.dangling, state ≠ s.haltState ∧ state ∉ p.table.states) ∧
    (∀ m, m₀.Visits m →
      m.now.state = s.haltState ∨ m.now.state ∈ p.table.states ∨ m.now.state ∈ p.dangling) ∧
    (∀ m : Machine, m.settings = s → m.table = p.table → m.now.state ∈ p.dangling →
      m.step = (.error m.stuck, m)) ∧
    (∀ m o e, m₀.Visits m → m.Fails o e → p.Foresees e) ∧
    (∀ maxSteps e, p.run input maxSteps = .error (.stuck e) → p.Foresees e) ∧
    (∀ recorded session, Session.start p input recorded = .ok session → ∀ operations o e,
      (session.performAll operations).Fails o e → p.Foresees e) ∧
    (p.dangling = [] → ∀ m, m₀.Visits m → m.status = .stuck →
      ∃ r ∈ p.rules, r.state = m.now.state) := by
  obtain ⟨_, _, ht, rfl⟩ := ofText_eq_ok_iff.1 hp
  have hfails (m : Machine) o e (hv : m₀.Visits m) (hf : m.Fails o e) : p.Foresees e := by
    obtain ⟨hstuck, rfl⟩ := hf.stuck
    exact foresees_stuck hp hm (hf.visits hv) hstuck
  refine ⟨Table.pairwise_lt_danglingTargets _ _, fun state => mem_dangling_iff hp, ?_,
    fun m => state_mem_of_visits hp hm, fun m => step_of_mem_dangling, hfails, ?_, ?_, ?_⟩
  · intro state h
    exact (Table.mem_danglingTargets.1 h).2
  · intro maxSteps e h
    rw [run, Checks.bind_eq_error_iff, hm] at h
    obtain hload | ⟨m, hload, hrun⟩ := h
    · cases hload
    · cases hload
      obtain ⟨e', herror, hsame⟩ := Checks.mapError_eq_error_iff.1 hrun
      cases hsame
      exact hfails m₀ (.run _) e .start (.run herror)
  · intro recorded session hs operations o e hf
    obtain ⟨hstuck, rfl⟩ := hf.stuck
    have hv := Session.visits_machine_performAll hm hs (operations ++ [o])
    rw [Session.performAll, List.foldl_append] at hv
    exact foresees_stuck hp hm hv hstuck
  · intro hnone m hv hstuck
    obtain hdangling | ⟨hrules, _⟩ := foresees_stuck hp hm hv hstuck
    · rw [hnone] at hdangling
      cases hdangling
    · exact (Table.mem_states_of_build ht).1 hrules

/-- The halt state has a rule, and another state that is led to has none. The machine fails
there. -/
theorem stuck_states_are_diagnosed_gone :
    ∃ p m e, ofText {} "INIT a GONE b R\nINIT b HALT b R\nHALT a INIT a R" = .ok p ∧
      p.machine "a" = .ok m ∧ p.dangling = ["GONE"] ∧ (m.stepN 2).1 = .error e ∧ e.state = "GONE" ∧
      p.Foresees e ∧ ∀ r ∈ p.rules, r.state ≠ "GONE" := by
  obtain ⟨p, m, hp, hm, htest⟩ :=
    exists_machine {} "INIT a GONE b R\nINIT b HALT b R\nHALT a INIT a R" "a"
    (fun p m => p.dangling == ["GONE"] &&
      match (m.stepN 2).1 with
      | .error e => e.state == "GONE"
      | .ok _ => false) (by decide +kernel)
  obtain ⟨hdangling, hfailed⟩ := Bool.and_eq_true_iff.1 htest
  have hdangling := beq_iff_eq.1 hdangling
  obtain ⟨_, hexact, _, _, _, hfails, _⟩ := stuck_states_are_diagnosed hp hm
  have hgone : "GONE" ∈ p.dangling := by
    rw [hdangling]
    exact List.mem_singleton_self _
  split at hfailed
  · rename_i e he
    exact ⟨p, m, e, hp, hm, hdangling, he, beq_iff_eq.1 hfailed, hfails m _ e .start (.stepN he),
      ((hexact _).1 hgone).2.2⟩
  · cases hfailed

end Program

end TapeMachine
