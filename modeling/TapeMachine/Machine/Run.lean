import TapeMachine.Machine.Basic
import TapeMachine.Text.Quoted

/-!
# Runs of a machine

`Machine.step` applies one rule, `Machine.stepN` a number of them, and `Machine.run` all of them up
to a limit. Each gives back its result and the machine after it, because a machine that got stuck is
still there to be looked at.
-/

namespace TapeMachine

/-- What a run ended with. -/
structure Report where
  /-- The text of the tape. -/
  tape : String
  steps : UInt64
  /-- The number of rules of the program. -/
  rules : UInt64
  /-- False if the run ended at its step limit. -/
  halted : Bool
deriving DecidableEq, Inhabited

/-- The failure of a machine that no rule applies to. -/
structure Stuck where
  state : String
  symbol : Char
  head : Int
  /-- The input that the machine was loaded with. -/
  input : String
deriving DecidableEq, Inhabited

/-- The text that reports a stuck machine. -/
def Stuck.message (e : Stuck) : String :=
  "No transition for symbol '" ++ e.symbol.toString ++ "' in state " ++ e.state ++
    " at position " ++ toString e.head ++ " with input tape " ++ Text.quote e.input

namespace Machine

/-- The failure of a machine that no rule applies to. -/
def stuck (m : Machine) : Stuck :=
  { state := m.now.state, symbol := m.symbol, head := m.now.head, input := m.input }

/-- The configuration after an action. The step count is a word and wraps; the head is an
integer and does not. A head outside the 64-bit addresses (those that `Machine.address` keeps)
is therefore not followed as a word would be: it goes on to the next integer, where a word
would wrap or overflow. -/
def apply (m : Machine) (a : Action) : Configuration where
  steps := m.now.steps + 1
  tape := m.now.tape.write m.settings.blank m.now.head a.newSymbol
  head := m.now.head + a.direction.offset
  state := a.newState

/-- Applies one rule. In the halt state nothing happens. -/
def step (m : Machine) : Except Stuck Signal × Machine :=
  if m.isHalted then (.ok .halted, m)
  else match m.action? with
    | none => (.error m.stuck, m)
    | some a =>
      let next := { m with now := m.apply a }
      (.ok next.signal, next)

theorem step_of_isHalted {m : Machine} (h : m.isHalted = true) : m.step = (.ok .halted, m) := by
  simp [step, h]

theorem step_of_action?_eq_none {m : Machine} (h : m.isHalted = false) (ha : m.action? = none) :
    m.step = (.error m.stuck, m) := by
  simp [step, h, ha]

theorem step_of_action?_eq_some {m : Machine} {a : Action} (h : m.isHalted = false)
    (ha : m.action? = some a) :
    m.step = (.ok { m with now := m.apply a }.signal, { m with now := m.apply a }) := by
  simp [step, h, ha]

/-- Applies up to `n` rules, stopping in the halt state. -/
def stepN (m : Machine) : Nat → Except Stuck Signal × Machine
  | 0 => (.ok m.signal, m)
  | n + 1 =>
    match m.step with
    | (.ok .running, next) => next.stepN n
    | ended => ended

/-- The tape, the steps and the number of rules as they stand. -/
def report (m : Machine) : Report where
  tape := m.now.tape.text m.settings.blank
  steps := m.now.steps
  rules := m.table.size.toUInt64
  halted := m.isHalted

/-- Whether a run that is limited to `max` steps is over. -/
def isDone (m : Machine) (max : UInt64) : Bool :=
  m.isHalted || max ≤ m.now.steps

/-- A step that goes on applies one rule. -/
theorem steps_of_step {m next : Machine} {s : Signal} (hm : m.isHalted = false)
    (h : m.step = (.ok s, next)) : next.now.steps = m.now.steps + 1 := by
  unfold step at h
  simp only [hm, Bool.false_eq_true, if_false] at h
  split at h
  · simp at h
  · simp only [Prod.mk.injEq] at h
    rw [← h.2]
    rfl

/-- Applies rules until the machine halts or has made `max` steps since its tape was loaded. -/
def run (m : Machine) (max : UInt64) : Except Stuck Report × Machine :=
  if _hdone : m.isDone max then (.ok m.report, m)
  else match _hstep : m.step with
    | (.error e, next) => (.error e, next)
    | (.ok _, next) => next.run max
termination_by max.toNat - m.now.steps.toNat
decreasing_by
  simp only [isDone, Bool.or_eq_true, decide_eq_true_eq, not_or, Bool.not_eq_true,
    UInt64.not_le] at _hdone
  have hlt := UInt64.lt_iff_toNat_lt.1 _hdone.2
  have hmax := max.toNat_lt
  rw [steps_of_step _hdone.1 _hstep, UInt64.toNat_add]
  simp only [UInt64.toNat_one]
  omega

end Machine

end TapeMachine
