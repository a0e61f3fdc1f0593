import TapeMachine.Proofs.Machine.Operations
import TapeMachine.Proofs.Session.Recorded

/-!
# What can be visited from a loaded machine

Stepping, running, starting over and going back to a configuration that was visited before do not
leave the one run that a loaded machine can make (`Machine.Visits.reachesIn`). This is all that a
session does to its machine, with a history or without (`Session.visits_machine_performAll`).
-/

namespace TapeMachine

namespace Machine

variable {m₀ m : Machine}

/-- The machines that can be had of `m₀` without another input. -/
inductive Visits (m₀ : Machine) : Machine → Prop where
  | start : Visits m₀ m₀
  | step {m : Machine} : Visits m₀ m → Visits m₀ m.step.2
  | stepN {m : Machine} (n : Nat) : Visits m₀ m → Visits m₀ (m.stepN n).2
  | run {m : Machine} (max : UInt64) : Visits m₀ m → Visits m₀ (m.run max).2
  | reset {m : Machine} : Visits m₀ m → Visits m₀ m.reset
  | restore {m m' : Machine} : Visits m₀ m → Visits m₀ m' → Visits m₀ (m.restore m'.now)

/-- Every visited machine is on the run of the loaded one. -/
theorem Visits.reachesIn (h0 : m₀.Fresh) (h : m₀.Visits m) : ∃ n, m₀.ReachesIn n m := by
  induction h with
  | start => exact ⟨0, .zero⟩
  | step _ ih =>
    obtain ⟨n, hr⟩ := ih
    exact ⟨_, hr.trans (exists_reachesIn_step _).choose_spec⟩
  | stepN k _ ih =>
    obtain ⟨n, hr⟩ := ih
    exact ⟨_, hr.trans (exists_reachesIn_stepN _ k).choose_spec⟩
  | run max _ ih =>
    obtain ⟨n, hr⟩ := ih
    exact ⟨_, hr.trans (exists_reachesIn_run _ max).choose_spec⟩
  | reset _ ih =>
    obtain ⟨n, hr⟩ := ih
    rw [hr.reset_eq h0]
    exact ⟨0, .zero⟩
  | restore _ _ ih ih' =>
    obtain ⟨n, hr⟩ := ih
    obtain ⟨n', hr'⟩ := ih'
    rw [ReachesIn.restore_eq h0.canonical hr hr']
    exact ⟨n', hr'⟩

/-- The loaded machine gets to all of its run by stepping. -/
theorem ReachesIn.visits {n : Nat} (h : m₀.ReachesIn n m) : m₀.Visits m := by
  induction h with
  | zero => exact .start
  | step _ ha ih =>
    have hnext := ih.step
    rwa [ha.step_eq] at hnext

end Machine

namespace Session

/-- The machine of the session is on the run of `m₀`, at the place that its step count tells, and so
was every machine whose configuration it keeps. -/
structure Counts (m₀ : Machine) (s : Session) : Prop where
  machine : m₀.ReachesIn s.machine.now.steps.toNat s.machine
  history : ∀ h, s.history = some h →
    ∀ c ∈ h.toList, ∃ m, m₀.ReachesIn m.now.steps.toNat m ∧ c = m.now

theorem kept_counts {m₀ : Machine} (h0 : m₀.Fresh) : Kept (Counts m₀) where
  advance s m hs hlt ha := by
    refine ⟨?_, fun h hh c hc => ?_⟩
    · show m₀.ReachesIn m.now.steps.toNat m
      rw [ha.toNat_steps hlt]
      exact hs.machine.step ha
    · obtain ⟨h', hh', rfl⟩ := Option.map_eq_some_iff.1 hh
      rw [History.toList_record, List.mem_append, List.mem_singleton] at hc
      obtain hold | rfl := hc
      · exact hs.history h' hh' c (List.mem_of_mem_take hold)
      · exact ⟨s.machine, hs.machine, rfl⟩
  restore s index c hs hc := by
    obtain ⟨h, hh, hget⟩ := Option.bind_eq_some_iff.1 hc
    have hlist := (seek_eq_some_iff hh index c).1 hc
    obtain ⟨m, hm, rfl⟩ := hs.history h hh c (List.mem_of_getElem? hlist)
    have hrestored : s.machine.restore m.now = m := hs.machine.restore_eq h0.canonical hm
    refine ⟨?_, hs.history⟩
    rw [hrestored]
    exact hm
  reset s hs := by
    refine ⟨?_, fun h hh c hc => ?_⟩
    · have hreset : s.reset.machine = m₀ := hs.machine.reset_eq h0
      rw [hreset]
      exact (Records.start h0).reached
    · obtain ⟨_, _, rfl⟩ := Option.map_eq_some_iff.1 hh
      cases hc
  setMaxSteps s max hs := ⟨hs.machine, hs.history⟩

section Operations

variable {p : Program} {input : String} {recorded : Bool} {m₀ : Machine} {s : Session}
  (hm : p.machine input = .ok m₀) (hs : start p input recorded = .ok s)
include hm hs

/-- Whatever is done with a session, its machine has applied as many rules as it counts. -/
theorem reachesIn_performAll (operations : List Operation) :
    let m := (s.performAll operations).machine
    m₀.ReachesIn m.now.steps.toNat m := by
  have h0 := Machine.fresh_of_ofInput (Program.machine_eq_ok_iff.1 hm)
  cases (start_of_machine hm recorded).symm.trans hs
  refine ((kept_counts h0).performAll
    ⟨(Records.start h0).reached, fun h hh c hc => ?_⟩ operations).machine
  cases recorded with
  | false => cases hh
  | true =>
    cases hh
    cases hc

/-- Whatever is done with a session, its machine stays among those that its first machine can
visit. -/
theorem visits_machine_performAll (operations : List Operation) :
    m₀.Visits (s.performAll operations).machine :=
  (reachesIn_performAll hm hs operations).visits

end Operations

end Session

end TapeMachine
