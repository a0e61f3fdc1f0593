import TapeMachine.Proofs.Machine.Reach
import TapeMachine.Session

/-!
# Operations on a session

Whatever is done with a session comes down to four elementary moves: one rule is applied, an earlier
configuration is restored, the session starts over, or its limit changes. `Session.Kept` says that
each of them keeps a property; then so does every sequence of operations, `Session.Kept.performAll`.
-/

namespace TapeMachine.Session

/-- What can be done with a session. -/
inductive Operation where
  | step
  | stepN (n : Nat)
  | run
  | rewind (index : UInt64)
  | reset
  | setMaxSteps (max : UInt64)

/-- The session after an operation, whatever the operation gives back. -/
def perform (s : Session) : Operation → Session
  | .step => s.step.2
  | .stepN n => (s.stepN n).2
  | .run => s.run.2
  | .rewind index => (s.rewind index).2
  | .reset => s.reset
  | .setMaxSteps max => s.setMaxSteps max

/-- The session after a sequence of operations. -/
def performAll (s : Session) (operations : List Operation) : Session :=
  operations.foldl perform s

/-- The session after its machine went to `m` by one rule. -/
def advanceTo (s : Session) (m : Machine) : Session :=
  { s with machine := m, history := s.history.map (·.record s.machine.now) }

/-- All that a step can do: nothing in the halt state or at the limit, fail where no rule applies,
or apply a rule below the limit. -/
theorem step_cases (s : Session) :
    (s.machine.isHalted = true ∧ s.step = (.ok (some .halted), s)) ∨
    (s.machine.isHalted = false ∧ s.maxSteps ≤ s.machine.now.steps ∧ s.step = (.ok none, s)) ∨
    (s.machine.isHalted = false ∧ s.machine.now.steps < s.maxSteps ∧ s.machine.action? = none ∧
      s.step = (.error s.machine.stuck, s)) ∨
    ∃ m, s.machine.now.steps < s.maxSteps ∧ s.machine.Applies m ∧
      s.step = (.ok (some m.signal), s.advanceTo m) := by
  unfold step atLimit
  obtain ⟨hh, hs⟩ | ⟨hh, ha, hs⟩ | ⟨m, ha, hs⟩ := s.machine.step_cases
  · left
    simp [hh]
  · by_cases hlimit : s.maxSteps ≤ s.machine.now.steps
    · right; left
      simp [hh, hlimit]
    · right; right; left
      simp [hh, ha, hs, hlimit, UInt64.not_le.1 hlimit]
  · by_cases hlimit : s.maxSteps ≤ s.machine.now.steps
    · right; left
      simp [ha.1, hlimit]
    · right; right; right
      refine ⟨m, UInt64.not_le.1 hlimit, ha, ?_⟩
      simp [ha.1, hs, hlimit, advanceTo]

theorem run_of_step_running {s next : Session} (h : s.step = (.ok (some .running), next)) :
    s.run = next.run := by
  rw [run]
  split
  · rename_i heq
    rw [h] at heq
    cases heq
    rfl
  · rename_i r _ hr heq
    rw [h] at heq
    cases heq
    exact absurd rfl hr
  · rename_i heq
    rw [h] at heq
    cases heq

theorem run_of_step_ok {s next : Session} {r : Option Signal} (h : s.step = (.ok r, next))
    (hr : r ≠ some .running) : s.run = (.ok next.machine.report, next) := by
  rw [run]
  split
  · rename_i heq
    rw [h] at heq
    cases heq
    exact absurd rfl hr
  · rename_i heq
    rw [h] at heq
    cases heq
    rfl
  · rename_i heq
    rw [h] at heq
    cases heq

theorem run_of_step_error {s next : Session} {e : Stuck} (h : s.step = (.error e, next)) :
    s.run = (.error e, next) := by
  rw [run]
  split
  · rename_i heq
    rw [h] at heq
    cases heq
  · rename_i heq
    rw [h] at heq
    cases heq
  · rename_i heq
    rw [h] at heq
    cases heq
    rfl

/-! ## Steps and runs, by where the session stands -/

section Standing

variable {s : Session} {m : Machine}

theorem step_of_isHalted (h : s.machine.isHalted = true) : s.step = (.ok (some .halted), s) := by
  rw [step, if_pos h]

theorem step_of_limit (h : s.machine.isHalted = false) (hle : s.maxSteps ≤ s.machine.now.steps) :
    s.step = (.ok none, s) := by
  simp [step, atLimit, h, hle]

theorem step_of_stuck (h : s.machine.isHalted = false) (hlt : s.machine.now.steps < s.maxSteps)
    (ha : s.machine.action? = none) : s.step = (.error s.machine.stuck, s) := by
  simp [step, atLimit, h, UInt64.not_le.2 hlt, Machine.step_of_action?_eq_none h ha]

theorem step_of_applies (hlt : s.machine.now.steps < s.maxSteps) (ha : s.machine.Applies m) :
    s.step = (.ok (some m.signal), s.advanceTo m) := by
  simp [step, atLimit, ha.1, UInt64.not_le.2 hlt, ha.step_eq, advanceTo]

theorem run_of_isHalted (h : s.machine.isHalted = true) : s.run = (.ok s.machine.report, s) :=
  run_of_step_ok (step_of_isHalted h) (by simp)

theorem run_of_limit (h : s.machine.isHalted = false) (hle : s.maxSteps ≤ s.machine.now.steps) :
    s.run = (.ok s.machine.report, s) :=
  run_of_step_ok (step_of_limit h hle) (by simp)

theorem run_of_stuck (h : s.machine.isHalted = false) (hlt : s.machine.now.steps < s.maxSteps)
    (ha : s.machine.action? = none) : s.run = (.error s.machine.stuck, s) :=
  run_of_step_error (step_of_stuck h hlt ha)

/-- Also in the case that the rule halts the machine: then the rest of the run does nothing. -/
theorem run_of_applies (hlt : s.machine.now.steps < s.maxSteps) (ha : s.machine.Applies m) :
    s.run = (s.advanceTo m).run := by
  have hstep := step_of_applies hlt ha
  cases hm : m.isHalted with
  | true =>
    rw [Machine.signal, if_pos hm] at hstep
    rw [run_of_step_ok hstep (by simp), run_of_isHalted (s := s.advanceTo m) hm]
  | false =>
    rw [Machine.signal, if_neg (by simp [hm])] at hstep
    exact run_of_step_running hstep

/-- Every session comes to an end by applying rules below its limit: it is halted or at the limit,
no rule applies, or one does and leads closer to the limit. -/
theorem limit_induction {P : Session → Prop}
    (halted : ∀ s, s.machine.isHalted = true → P s)
    (limit : ∀ s, s.machine.isHalted = false → s.maxSteps ≤ s.machine.now.steps → P s)
    (stuck : ∀ s, s.machine.isHalted = false → s.machine.now.steps < s.maxSteps →
      s.machine.action? = none → P s)
    (advance : ∀ s m, s.machine.now.steps < s.maxSteps → s.machine.Applies m →
      P (s.advanceTo m) → P s) (s : Session) : P s := by
  induction hleft : s.maxSteps.toNat - s.machine.now.steps.toNat using Nat.strongRecOn
    generalizing s with
  | ind left ih =>
    obtain ⟨hh, _⟩ | ⟨hh, hle, _⟩ | ⟨hh, hlt, ha, _⟩ | ⟨m, hlt, ha, _⟩ := s.step_cases
    · exact halted s hh
    · exact limit s hh hle
    · exact stuck s hh hlt ha
    · have hsteps : m.now.steps.toNat = s.machine.now.steps.toNat + 1 := ha.toNat_steps hlt
      have hbound := UInt64.lt_iff_toNat_lt.1 hlt
      refine advance s m hlt ha (ih _ ?_ (s.advanceTo m) rfl)
      show s.maxSteps.toNat - m.now.steps.toNat < left
      omega

end Standing

/-! ## What all moves keep -/

/-- The elementary moves keep a property. -/
structure Kept (P : Session → Prop) : Prop where
  advance : ∀ s m, P s → s.machine.now.steps < s.maxSteps → s.machine.Applies m → P (s.advanceTo m)
  restore : ∀ s index c, P s → s.seek index = some c → P { s with machine := s.machine.restore c }
  reset : ∀ s, P s → P s.reset
  setMaxSteps : ∀ s max, P s → P (s.setMaxSteps max)

namespace Kept

variable {P : Session → Prop}

theorem step (hP : Kept P) {s : Session} (h : P s) : P s.step.2 := by
  obtain ⟨_, hs⟩ | ⟨_, _, hs⟩ | ⟨_, _, _, hs⟩ | ⟨m, hlt, ha, hs⟩ := s.step_cases
  · rwa [hs]
  · rwa [hs]
  · rwa [hs]
  · rw [hs]
    exact hP.advance s m h hlt ha

theorem stepN (hP : Kept P) {s : Session} (h : P s) (n : Nat) : P (s.stepN n).2 := by
  induction n generalizing s with
  | zero => exact h
  | succ n ih =>
    have hnext := hP.step h
    rw [Session.stepN]
    split
    · rename_i next heq
      rw [heq] at hnext
      exact ih hnext
    · exact hnext

theorem run (hP : Kept P) {s : Session} (h : P s) : P s.run.2 := by
  induction s using Session.limit_induction with
  | halted s hh => rwa [run_of_isHalted hh]
  | limit s hh hle => rwa [run_of_limit hh hle]
  | stuck s hh hlt ha => rwa [run_of_stuck hh hlt ha]
  | advance s m hlt ha ih =>
    rw [run_of_applies hlt ha]
    exact ih (hP.advance s m h hlt ha)

theorem perform (hP : Kept P) {s : Session} (h : P s) (o : Operation) : P (s.perform o) := by
  cases o with
  | step => exact hP.step h
  | stepN n => exact hP.stepN h n
  | run => exact hP.run h
  | rewind index =>
    show P (s.rewind index).2
    unfold Session.rewind
    split
    · rename_i c hc
      exact hP.restore s index c h hc
    · exact h
  | reset => exact hP.reset s h
  | setMaxSteps max => exact hP.setMaxSteps s max h

/-- A property that the elementary moves keep survives every sequence of operations. -/
theorem performAll (hP : Kept P) {s : Session} (h : P s) (operations : List Operation) :
    P (s.performAll operations) := by
  induction operations generalizing s with
  | nil => exact h
  | cons o rest ih => exact ih (hP.perform h o)

end Kept

end TapeMachine.Session
