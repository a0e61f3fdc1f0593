import TapeMachine.Proofs.Machine.Bounded
import TapeMachine.Proofs.Program.Accepted

/-!
# Runs of a program

A run of a program on an accepted input is a run of its machine: where the rules lead from there,
and in how many steps, tells what the run gives back.
-/

namespace TapeMachine.Program

variable {p : Program} {input : String} {m m' : Machine} {n : Nat} {limit : Option UInt64}

theorem exists_machine_of_length_le (hspace : ' ' ∉ input.toList)
    (hlength : input.length ≤ p.settings.maxTapeLen.toNat) : ∃ m, p.machine input = .ok m :=
  ⟨_, machine_eq_ok_iff.2
    (Machine.ofInput_of_inputFault?_eq_none (Machine.inputFault?_eq_none_iff.2 ⟨hspace, hlength⟩))⟩

theorem length_le_of_machine (hm : p.machine input = .ok m) :
    input.length ≤ p.settings.maxTapeLen.toNat :=
  (Machine.inputFault?_eq_none_iff.1 (Machine.inputFault?_of_ofInput (machine_eq_ok_iff.1 hm))).2

theorem steps_of_machine (hm : p.machine input = .ok m) : m.now.steps = 0 := by
  rw [Machine.now_of_ofInput (machine_eq_ok_iff.1 hm)]
  rfl

theorem run_eq_of_machine (hm : p.machine input = .ok m) (limit : Option UInt64) :
    p.run input limit = (m.run (limit.getD p.settings.maxSteps)).1.mapError .stuck := by
  simp only [run, hm, bind, Except.bind]

/-- A run that gets to the halt state within its limit reports the machine there. -/
theorem run_of_isHalted (hm : p.machine input = .ok m) (hr : m.ReachesIn n m')
    (hh : m'.isHalted = true) (hn : n ≤ (limit.getD p.settings.maxSteps).toNat) :
    p.run input limit = .ok m'.report ∧ m'.report.halted = true ∧ m'.report.steps.toNat = n := by
  obtain ⟨hrun, hsteps⟩ := hr.run_of_isHalted (steps_of_machine hm) hn hh
  rw [run_eq_of_machine hm, hrun]
  exact ⟨rfl, hh, hsteps⟩

/-- A run that gets below its limit to a place where no rule applies fails with what is there. -/
theorem run_of_stuck (hm : p.machine input = .ok m) (hr : m.ReachesIn n m')
    (hh : m'.isHalted = false) (ha : m'.action? = none)
    (hn : n < (limit.getD p.settings.maxSteps).toNat) :
    p.run input limit = .error (.stuck m'.stuck) := by
  rw [run_eq_of_machine hm, hr.run_of_stuck (steps_of_machine hm) hn hh ha]
  rfl

/-- A run that is reported has loaded its input. -/
theorem length_le_of_run {r : Report} (h : p.run input limit = .ok r) :
    input.length ≤ p.settings.maxTapeLen.toNat := by
  obtain ⟨m, hm, _⟩ := Checks.bind_eq_ok_iff.1 h
  exact length_le_of_machine hm

end TapeMachine.Program
