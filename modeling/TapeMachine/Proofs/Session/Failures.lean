import Mathlib.Data.Nat.Find
import TapeMachine.Proofs.Machine.Bounded
import TapeMachine.Proofs.Session.Recorded

/-!
# Failing operations

An operation that fails leaves what it works on as it is. An operation of several steps leaves
what the steps before the failing one have made of it (`FailsAfter`), and fails in the same
way when it is asked again.
-/

namespace TapeMachine

/-- `n` steps that go on lead from the first state to the second, in which the next step
fails and changes nothing. -/
inductive FailsAfter {σ ε ρ : Type} (step : σ → Except ε ρ × σ) (running : ρ) :
    Nat → σ → ε → σ → Prop where
  | now {a : σ} {e : ε} : step a = (.error e, a) → FailsAfter step running 0 a e a
  | later {n : Nat} {a a' b : σ} {e : ε} : step a = (.ok running, a') →
      FailsAfter step running n a' e b → FailsAfter step running (n + 1) a e b

theorem FailsAfter.last_step {σ ε ρ : Type} {step : σ → Except ε ρ × σ} {running : ρ} {n : Nat}
    {a b : σ} {e : ε} (h : FailsAfter step running n a e b) : step b = (.error e, b) := by
  induction h with
  | now h => exact h
  | later _ _ ih => exact ih

namespace Machine

variable {m m' : Machine} {e : Stuck} {n : Nat} {max : UInt64}

theorem status_eq_stuck_iff : m.status = .stuck ↔ m.isHalted = false ∧ m.action? = none := by
  cases hh : m.isHalted with
  | true => simp [status, hh]
  | false => cases ha : m.action? <;> simp [status, hh, ha]

theorem step_eq_error_iff : m.step = (.error e, m') ↔ m.status = .stuck ∧ e = m.stuck ∧ m' = m := by
  rw [status_eq_stuck_iff]
  obtain ⟨hh, hs⟩ | ⟨hh, ha, hs⟩ | ⟨m₁, happ, hs⟩ := m.step_cases
  · simp [hs, hh]
  · simp [hs, hh, ha, eq_comm]
  · obtain ⟨hh, a, ha, _⟩ := happ
    simp [hs, ha]

theorem Applies.failsAfter {b : Machine} (ha : m.Applies m')
    (h : FailsAfter step .running n m' e b) : FailsAfter step .running (n + 1) m e b := by
  -- The applied rule did not halt the machine, since it went on or failed.
  have hh : m'.isHalted = false := by
    cases hh : m'.isHalted with
    | false => rfl
    | true =>
      cases h with
      | now hs => cases (step_of_isHalted hh).symm.trans hs
      | later hs _ => cases (step_of_isHalted hh).symm.trans hs
  refine .later ?_ h
  rw [ha.step_eq, signal, hh]
  rfl

theorem ReachesIn.failsAfter {b : Machine} {k : Nat} (hr : m.ReachesIn n m')
    (h : FailsAfter Machine.step .running k m' e b) :
    FailsAfter Machine.step .running (k + n) m e b := by
  induction hr generalizing k with
  | zero => exact h
  | @step n _ _ _ ha ih =>
    rw [Nat.add_succ, ← Nat.succ_add]
    exact ih (ha.failsAfter h)

theorem failsAfter_of_stepN (h : m.stepN n = (.error e, m')) :
    ∃ k < n, FailsAfter step .running k m e m' := by
  induction n generalizing m with
  | zero => cases h
  | succ n ih =>
    obtain ⟨hh, _⟩ | ⟨hh, ha, hs⟩ | ⟨m₁, ha, _⟩ := m.step_cases
    · cases (stepN_of_isHalted hh _).symm.trans h
    · cases (stepN_succ_of_action?_eq_none hh ha n).symm.trans h
      exact ⟨0, Nat.succ_pos n, .now hs⟩
    · rw [ha.stepN_succ] at h
      obtain ⟨k, hk, hfails⟩ := ih h
      exact ⟨k + 1, Nat.succ_lt_succ hk, ha.failsAfter hfails⟩

theorem stepN_again (h : m.stepN n = (.error e, m')) : m'.stepN n = (.error e, m') := by
  obtain ⟨k, hk, hfails⟩ := failsAfter_of_stepN h
  cases n with
  | zero => exact absurd hk (Nat.not_lt_zero k)
  | succ n => rw [stepN, hfails.last_step]

theorem failsAfter_of_run (h : m.run max = (.error e, m')) :
    m'.now.steps < max ∧ ∃ k, FailsAfter step .running k m e m' := by
  obtain ⟨n, m₁, hr, _, _, ⟨_, hrun⟩ | ⟨hh, hlt, ha, hrun⟩⟩ := m.exists_run_end max
  · cases h.symm.trans hrun
  · cases h.symm.trans hrun
    exact ⟨hlt, _, hr.failsAfter (.now (step_of_action?_eq_none hh ha))⟩

theorem run_again (h : m.run max = (.error e, m')) : m'.run max = (.error e, m') := by
  obtain ⟨hlt, k, hfails⟩ := failsAfter_of_run h
  obtain ⟨hstuck, rfl, _⟩ := step_eq_error_iff.1 hfails.last_step
  obtain ⟨hh, ha⟩ := status_eq_stuck_iff.1 hstuck
  exact run_of_action?_eq_none hh hlt ha

/-! ## Inputs -/

/-- What is wrong with an input. Its length counts only if it has no space. -/
inductive Refuses (max : UInt64) (input : String) : InputFault → Prop where
  | space {i : Nat} : input.toList[i]? = some ' ' → (∀ j < i, input.toList[j]? ≠ some ' ') →
      Refuses max input (.space i)
  | tooLong : ' ' ∉ input.toList → max.toNat < input.length →
      Refuses max input (.tooLong input.length max)

theorem inputFault?_eq_some_iff {input : String} {fault : InputFault} :
    m.inputFault? input = some fault ↔ Refuses m.settings.maxTapeLen input fault := by
  cases hfind : input.toList.findIdx? (· = ' ') with
  | none =>
    have hno : ' ' ∉ input.toList := fun hmem => by
      simpa using List.findIdx?_eq_none_iff.1 hfind _ hmem
    simp only [inputFault?, hfind]
    constructor
    · intro h
      split at h
      · rename_i hlong
        cases h
        exact .tooLong hno hlong
      · cases h
    · intro h
      cases h with
      | space hi => exact absurd (List.mem_of_getElem? hi) hno
      | tooLong _ hlong => exact if_pos hlong
  | some position =>
    obtain ⟨hlt, hspace, hbefore⟩ := List.findIdx?_eq_some_iff_getElem.1 hfind
    have hat : input.toList[position]? = some ' ' := by
      rw [List.getElem?_eq_getElem hlt]
      simpa using hspace
    have hfirst : ∀ j < position, input.toList[j]? ≠ some ' ' := by
      intro j hj hjspace
      obtain ⟨_, hget⟩ := List.getElem?_eq_some_iff.1 hjspace
      exact hbefore j hj (by simpa using hget)
    simp only [inputFault?, hfind]
    constructor
    · intro h
      cases h
      exact .space hat hfirst
    · intro h
      cases h with
      | @space i hi hibefore =>
        -- Of two first spaces neither stands before the other.
        have hle : position ≤ i := Nat.not_lt.1 fun hlt => hfirst i hlt hi
        have hge : i ≤ position := Nat.not_lt.1 fun hlt => hibefore position hlt hat
        rw [Nat.le_antisymm hle hge]
      | tooLong hno => exact absurd (List.mem_of_getElem? hat) hno

theorem load_eq_error_iff {input : String} {fault : InputFault} :
    m.load input = (.error fault, m') ↔ Refuses m.settings.maxTapeLen input fault ∧ m' = m := by
  rw [← inputFault?_eq_some_iff, load]
  cases hfault : m.inputFault? input with
  | none => simp
  | some fault' => simp [eq_comm]

theorem exists_refuses_iff {input : String} :
    (∃ fault, Refuses max input fault) ↔ ' ' ∈ input.toList ∨ max.toNat < input.length := by
  constructor
  · rintro ⟨fault, h⟩
    cases h with
    | space hi => exact .inl (List.mem_of_getElem? hi)
    | tooLong _ hlong => exact .inr hlong
  · intro h
    by_cases hspace : ' ' ∈ input.toList
    · have hex : ∃ i, input.toList[i]? = some ' ' := List.mem_iff_getElem?.1 hspace
      exact ⟨_, .space (Nat.find_spec hex) fun j hj => Nat.find_min hex hj⟩
    · exact ⟨_, .tooLong hspace (h.resolve_left hspace)⟩

end Machine

namespace Session

variable {s s' : Session} {e : Stuck} {n : Nat}

theorem eq_of_step_error (h : s.step = (.error e, s')) : s' = s := by
  obtain ⟨_, hs⟩ | ⟨_, _, hs⟩ | ⟨_, _, _, hs⟩ | ⟨_, _, _, hs⟩ := s.step_cases
  · cases hs.symm.trans h
  · cases hs.symm.trans h
  · cases hs.symm.trans h
    rfl
  · cases hs.symm.trans h

theorem stuck_of_step_error {s s' : Session} {e : Stuck} (h : s.step = (.error e, s')) :
    e = s.machine.stuck ∧ s.machine.status = .stuck := by
  obtain ⟨_, hs⟩ | ⟨_, _, hs⟩ | ⟨hh, _, ha, hs⟩ | ⟨_, _, _, hs⟩ := s.step_cases
  · cases hs.symm.trans h
  · cases hs.symm.trans h
  · cases hs.symm.trans h
    exact ⟨rfl, Machine.status_eq_stuck_iff.2 ⟨hh, ha⟩⟩
  · cases hs.symm.trans h

theorem failsAfter_of_stepN (h : s.stepN n = (.error e, s')) :
    ∃ k < n, FailsAfter step (some .running) k s e s' := by
  induction n generalizing s with
  | zero => cases h
  | succ n ih =>
    rw [stepN] at h
    split at h
    · rename_i next heq
      obtain ⟨k, hk, hfails⟩ := ih h
      exact ⟨k + 1, Nat.succ_lt_succ hk, .later heq hfails⟩
    · obtain rfl := eq_of_step_error h
      exact ⟨0, Nat.succ_pos n, .now h⟩

theorem stepN_again (h : s.stepN n = (.error e, s')) : s'.stepN n = (.error e, s') := by
  obtain ⟨k, hk, hfails⟩ := failsAfter_of_stepN h
  cases n with
  | zero => exact absurd hk (Nat.not_lt_zero k)
  | succ n => rw [stepN, hfails.last_step]

theorem failsAfter_of_run (h : s.run = (.error e, s')) :
    ∃ k, FailsAfter step (some .running) k s e s' := by
  induction s using Session.run.induct with
  | case1 s next heq ih =>
    rw [run_of_step_running heq] at h
    obtain ⟨k, hfails⟩ := ih h
    exact ⟨k + 1, .later heq hfails⟩
  | case2 s r next hr heq => cases (run_of_step_ok heq hr).symm.trans h
  | case3 s e' next heq =>
    cases (run_of_step_error heq).symm.trans h
    obtain rfl := eq_of_step_error heq
    exact ⟨0, .now heq⟩

theorem run_again (h : s.run = (.error e, s')) : s'.run = (.error e, s') := by
  obtain ⟨k, hfails⟩ := failsAfter_of_run h
  exact run_of_step_error hfails.last_step

theorem step_unchanged (s : Session) (h : (∃ e, s.step.1 = .error e) ∨ s.step.1 = .ok none ∨
    s.machine.isHalted = true) : s.step.2 = s := by
  obtain ⟨_, hs⟩ | ⟨_, _, hs⟩ | ⟨_, _, _, hs⟩ | ⟨m, _, ha, hs⟩ := s.step_cases
  · rw [hs]
  · rw [hs]
  · rw [hs]
  · rw [hs] at h
    obtain ⟨e, he⟩ | hnone | hh := h
    · cases he
    · cases hnone
    · rw [ha.1] at hh
      cases hh

/-- Whatever machine or session it is: a step fails just where no rule applies, an input is refused
just for a space or for its length, and neither changes anything; a session stays as it is when a
step fails, when it is at its limit or halted, and when there is nothing to go back to. Operations
of several steps that fail leave what the steps before have made, and fail again in the same way. -/
theorem failures_change_nothing :
    (∀ (m m' : Machine) e, m.step = (.error e, m') ↔ m.status = .stuck ∧ e = m.stuck ∧ m' = m) ∧
    (∀ (m : Machine) input,
      ((∃ fault m', m.load input = (.error fault, m')) ↔
        ' ' ∈ input.toList ∨ m.settings.maxTapeLen.toNat < input.length) ∧
      ∀ fault m', m.load input = (.error fault, m') →
        Machine.Refuses m.settings.maxTapeLen input fault ∧ m' = m) ∧
    (∀ s : Session,
      ((∃ e, s.step.1 = .error e) ∨ s.step.1 = .ok none ∨ s.machine.isHalted = true →
        s.step.2 = s) ∧
      (s.machine.isHalted = true → s.step.1 = .ok (some .halted)) ∧
      ∀ index, (s.rewind index).1 = false → (s.rewind index).2 = s) ∧
    (∀ (m m' : Machine) n e, m.stepN n = (.error e, m') →
      (∃ k < n, FailsAfter Machine.step .running k m e m') ∧ m'.stepN n = (.error e, m')) ∧
    (∀ (m m' : Machine) max e, m.run max = (.error e, m') →
      m'.now.steps < max ∧ (∃ k, FailsAfter Machine.step .running k m e m') ∧
        m'.run max = (.error e, m')) ∧
    (∀ (s s' : Session) n e, s.stepN n = (.error e, s') →
      (∃ k < n, FailsAfter step (some .running) k s e s') ∧ s'.stepN n = (.error e, s')) ∧
    ∀ (s s' : Session) e, s.run = (.error e, s') →
      (∃ k, FailsAfter step (some .running) k s e s') ∧ s'.run = (.error e, s') := by
  refine ⟨fun m m' e => Machine.step_eq_error_iff, ?_, ?_, ?_, ?_, ?_, ?_⟩
  · intro m input
    refine ⟨?_, fun fault m' => Machine.load_eq_error_iff.1⟩
    simp only [Machine.load_eq_error_iff, exists_and_left, exists_eq, and_true]
    exact Machine.exists_refuses_iff
  · intro s
    refine ⟨s.step_unchanged, fun hh => by rw [step, if_pos hh], ?_⟩
    intro index h
    rw [rewind_fst, Option.isSome_eq_false_iff, Option.isNone_iff_eq_none] at h
    rw [rewind, h]
  · intro m m' n e h
    exact ⟨Machine.failsAfter_of_stepN h, Machine.stepN_again h⟩
  · intro m m' max e h
    obtain ⟨hlt, hfails⟩ := Machine.failsAfter_of_run h
    exact ⟨hlt, hfails, Machine.run_again h⟩
  · intro s s' n e h
    exact ⟨failsAfter_of_stepN h, stepN_again h⟩
  · intro s s' e h
    exact ⟨failsAfter_of_run h, run_again h⟩

/-- One rule applies, and no rule to what it leaves: the rule stays applied and the next
attempt fails alike, with a history and without. An input with a space that is too long is
refused for the space. -/
theorem failures_change_nothing_after_progress :
    ∃ p m s e m' s', Program.ofText {} "INIT a Q a R\nQ b HALT b R" = .ok p ∧
      p.machine "a" = .ok m ∧ start p "a" true = .ok s ∧
      m.stepN 3 = (.error e, m') ∧ m'.stepN 3 = (.error e, m') ∧
      s.stepN 3 = (.error e, s') ∧ s'.stepN 3 = (.error e, s') ∧
      (∃ fault m₁, m.load "a b" = (.error fault, m₁) ∧ m₁ = m) := by
  obtain ⟨p, m, hp, hm, htest⟩ := Program.exists_machine {} "INIT a Q a R\nQ b HALT b R" "a"
    (fun p m =>
      let s : Session := ⟨m, some .empty, p.settings.maxSteps⟩
      match (m.stepN 3).1, (s.stepN 3).1 with
      | .error e, .error e' => e == e'
      | _, _ => false) (by decide +kernel)
  obtain ⟨_, hload, _, hmachine, _, hsession, _⟩ := failures_change_nothing
  cases hmstep : m.stepN 3 with
  | mk r m' =>
    cases hsstep : Session.stepN ⟨m, some .empty, p.settings.maxSteps⟩ 3 with
    | mk r' s' =>
      simp only [hmstep, hsstep] at htest
      split at htest
      · rename_i e e'
        obtain rfl := beq_iff_eq.1 htest
        obtain ⟨hrefused, hunchanged⟩ := hload m "a b"
        obtain ⟨fault, m₁, hm₁⟩ := hrefused.2 (.inl (by decide))
        exact ⟨p, m, _, e, m', s', hp, hm, start_of_machine hm true, hmstep,
          (hmachine _ _ _ _ hmstep).2, hsstep, (hsession _ _ _ _ hsstep).2, fault, m₁, hm₁,
          (hunchanged fault m₁ hm₁).2⟩
      · cases htest

end Session

end TapeMachine
