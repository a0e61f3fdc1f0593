import TapeMachine.History
import TapeMachine.Program

/-!
# Sessions

A session is a machine that somebody steps: never beyond a step limit, and with a history if one is
wanted.
-/

namespace TapeMachine

/-- A machine with its step limit and, if it is recorded, its history. -/
structure Session where
  machine : Machine
  history : Option History
  maxSteps : UInt64

namespace Session

/-- A session of a program on an input. -/
def start (p : Program) (input : String) (recorded : Bool) : Except Error Session := do
  let m ← p.machine input
  return {
    machine := m
    history := if recorded then some .empty else none
    maxSteps := p.settings.maxSteps }

/-- Whether the step limit is reached and the machine has not halted. -/
def atLimit (s : Session) : Bool :=
  !s.machine.isHalted && s.maxSteps ≤ s.machine.now.steps

/-- Applies one rule, and records the configuration before it. The result is `none` at the step
limit. -/
def step (s : Session) : Except Stuck (Option Signal) × Session :=
  if s.machine.isHalted then (.ok (some .halted), s)
  else if s.atLimit then (.ok none, s)
  else match s.machine.step with
    | (.error e, m) => (.error e, { s with machine := m })
    | (.ok signal, next) =>
      (.ok (some signal),
        { s with machine := next, history := s.history.map (·.record s.machine.now) })

/-- Applies up to `n` rules, stopping in the halt state and at the step limit. -/
def stepN (s : Session) : Nat → Except Stuck (Option Signal) × Session
  | 0 => (.ok (some .running), s)
  | n + 1 =>
    match s.step with
    | (.ok (some .running), next) => next.stepN n
    | ended => ended

/-- A step that goes on applies one rule, below the step limit. -/
theorem lt_of_step {s next : Session} (h : s.step = (.ok (some .running), next)) :
    s.machine.now.steps < s.maxSteps ∧ next.maxSteps = s.maxSteps ∧
      next.machine.now.steps = s.machine.now.steps + 1 := by
  unfold step at h
  split at h
  · simp at h
  · rename_i hhalt
    split at h
    · simp at h
    · rename_i hlimit
      split at h
      · simp at h
      · rename_i signal m hm
        simp only [Prod.mk.injEq] at h
        have hhalt : s.machine.isHalted = false := by simpa using hhalt
        refine ⟨?_, ?_, ?_⟩
        · simpa [atLimit, hhalt] using hlimit
        · rw [← h.2]
        · rw [← h.2]
          exact Machine.steps_of_step hhalt hm

/-- A step that goes on leaves fewer steps up to the limit. -/
theorem limit_sub_steps_lt {s next : Session} (h : s.step = (.ok (some .running), next)) :
    next.maxSteps.toNat - next.machine.now.steps.toNat <
      s.maxSteps.toNat - s.machine.now.steps.toNat := by
  obtain ⟨hlt, hmax, hsteps⟩ := lt_of_step h
  have hlt := UInt64.lt_iff_toNat_lt.1 hlt
  have hbound := s.maxSteps.toNat_lt
  rw [hmax, hsteps, UInt64.toNat_add]
  simp only [UInt64.toNat_one]
  omega

/-- Applies rules until the machine halts or the step limit is reached. -/
def run (s : Session) : Except Stuck Report × Session :=
  match _hstep : s.step with
  | (.ok (some .running), next) => next.run
  | (.ok _, next) => (.ok next.machine.report, next)
  | (.error e, next) => (.error e, next)
termination_by s.maxSteps.toNat - s.machine.now.steps.toNat
decreasing_by
  exact limit_sub_steps_lt _hstep

/-- The configuration recorded before step `index`. -/
def seek (s : Session) (index : UInt64) : Option Configuration :=
  s.history.bind (·.get? index)

/-- Goes back to the configuration before step `index`; says whether there is one. -/
def rewind (s : Session) (index : UInt64) : Bool × Session :=
  match s.seek index with
  | some c => (true, { s with machine := s.machine.restore c })
  | none => (false, s)

/-- Starts over on the same input with an empty history. -/
def reset (s : Session) : Session :=
  { s with machine := s.machine.reset, history := s.history.map fun _ => .empty }

/-- Changes the step limit. -/
def setMaxSteps (s : Session) (max : UInt64) : Session :=
  { s with maxSteps := max }

end Session

end TapeMachine
