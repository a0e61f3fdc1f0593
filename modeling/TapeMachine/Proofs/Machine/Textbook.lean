import Mathlib.Logic.Function.Basic
import TapeMachine.Proofs.Machine.Reach
import TapeMachine.Proofs.Program.Accepted
import TapeMachine.Proofs.Table.Build

/-!
# The textbook machine

A Turing machine as textbooks have it: the tape is a function on all addresses, the rules are a
partial function of state and symbol, and the machine stays put once it is in its halt state or no
rule applies. A `Machine` with a sparse tape and a table does the same, step by step.

## Main definitions

- `Textbook`: a transition function with its blank, initial state and halt state
- `Textbook.after`: the configuration after a number of steps on an input
- `Textbook.applied`: how many of these steps applied a rule
- `Textbook.Represents`: a machine and a textbook configuration that agree

## Main results

- `Textbook.Represents.next`: one step keeps the agreement
- `machine_follows_textbook`: so does every run of an accepted program on an accepted input
- `step_running_into_stuck`: a step may report `running` and leave a machine that is stuck
-/

namespace TapeMachine

/-- A Turing machine as textbooks define it. -/
structure Textbook where
  /-- What is done in a state at a symbol, if there is a transition for them. -/
  delta : String → Char → Option Action
  /-- The symbol of the cells that nothing was written to. -/
  blank : Char
  initState : String
  haltState : String

namespace Textbook

/-- What changes while such a machine runs. -/
structure Configuration where
  /-- The symbol at each address. -/
  tape : Int → Char
  /-- The address of the cell under the head. -/
  head : Int
  state : String

/-- The transition function of rules: the first rule for a state and a symbol counts. -/
def deltaOf (rules : List Rule) (state : String) (symbol : Char) : Option Action :=
  (rules.find? fun r => r.state = state ∧ r.symbol = symbol).map (·.action)

/-- The textbook machine of rules, with the blank and the states that the settings name. -/
def ofRules (s : Settings) (rules : List Rule) : Textbook :=
  { delta := deltaOf rules, blank := s.blank, initState := s.initState, haltState := s.haltState }

variable (M : Textbook)

/-- Symbol `i` of the input stands at address `i`; every other cell is blank. -/
def initial (input : String) : Configuration where
  tape a := if 0 ≤ a then (input.toList[a.toNat]?).getD M.blank else M.blank
  head := 0
  state := M.initState

/-- What the machine can do next: a state and a symbol without a transition make it stuck. -/
def status (c : Configuration) : Status :=
  if c.state = M.haltState then .halted
  else if M.delta c.state (c.tape c.head) = none then .stuck
  else .running

/-- The configuration after a transition: the symbol is written before the head moves. -/
def apply (c : Configuration) (a : Action) : Configuration where
  tape := Function.update c.tape c.head a.newSymbol
  head := c.head + a.direction.offset
  state := a.newState

/-- One step; a machine that is halted or stuck stays put. -/
def next (c : Configuration) : Configuration :=
  if c.state = M.haltState then c
  else match M.delta c.state (c.tape c.head) with
    | none => c
    | some a => apply c a

/-- The configuration after `n` steps from the start on an input. -/
def after (input : String) (n : Nat) : Configuration :=
  M.next^[n] (M.initial input)

/-- How many of the first `n` steps on an input applied a rule. -/
def applied (input : String) : Nat → Nat
  | 0 => 0
  | n + 1 => applied input n + if M.status (M.after input n) = .running then 1 else 0

theorem applied_le (input : String) (n : Nat) : M.applied input n ≤ n := by
  induction n with
  | zero => exact Nat.le_refl 0
  | succ n ih =>
    rw [applied]
    split <;> omega

theorem after_succ (input : String) (n : Nat) :
    M.after input (n + 1) = M.next (M.after input n) :=
  Function.iterate_succ_apply' ..

/-- A machine and a textbook configuration agree: the tape reads alike at every address, and head
and state are the same. -/
structure Represents (m : Machine) (c : Configuration) : Prop where
  tape : ∀ a, m.now.tape.read m.settings.blank a = c.tape a
  head : m.now.head = c.head
  state : m.now.state = c.state

variable {M}

/-! ## The table and the transition function -/

/-- The transition function of rules that make a table has just these rules as its graph. -/
theorem deltaOf_eq_some_iff {s : Settings} {init halt : String} {rules : List Rule} {t : Table}
    (h : Table.build s init halt rules = .ok t) (state : String) (symbol : Char) (a : Action) :
    deltaOf rules state symbol = some a ↔ { state, symbol, action := a } ∈ rules := by
  constructor
  · intro hd
    obtain ⟨r, hr, rfl⟩ := Option.map_eq_some_iff.1 hd
    have hplace := List.find?_some hr
    simp only [Bool.decide_and, Bool.and_eq_true, decide_eq_true_eq] at hplace
    obtain ⟨rfl, rfl⟩ := hplace
    exact List.mem_of_find?_eq_some hr
  · intro hmem
    cases hf : rules.find? fun r => r.state = state ∧ r.symbol = symbol with
    | none =>
      have hno := List.find?_eq_none.1 hf _ hmem
      simp at hno
    | some r =>
      have hplace := List.find?_some hf
      simp only [Bool.decide_and, Bool.and_eq_true, decide_eq_true_eq] at hplace
      -- Both rules are in the table, which holds one action for this state and symbol.
      have hr := (Table.get?_eq_some_iff_of_build h r.state r.symbol r.action).2
        (List.mem_of_find?_eq_some hf)
      rw [hplace.1, hplace.2, (Table.get?_eq_some_iff_of_build h state symbol a).2 hmem] at hr
      rw [deltaOf, hf, Option.map_some, ← hr]

theorem deltaOf_eq_get? {s : Settings} {init halt : String} {rules : List Rule} {t : Table}
    (h : Table.build s init halt rules = .ok t) (state : String) (symbol : Char) :
    deltaOf rules state symbol = t.get? state symbol := by
  apply Option.ext
  intro a
  rw [deltaOf_eq_some_iff h, Table.get?_eq_some_iff_of_build h]

/-! ## The simulation -/

/-- The machine has the transitions, the blank and the halt state of `M`. -/
structure SameRules (M : Textbook) (m : Machine) : Prop where
  blank : m.settings.blank = M.blank
  haltState : m.settings.haltState = M.haltState
  delta : ∀ state symbol, M.delta state symbol = m.table.get? state symbol

theorem SameRules.applies {m m' : Machine} (h : SameRules M m) (ha : m.Applies m') :
    SameRules M m' where
  blank := by rw [ha.settings_eq, h.blank]
  haltState := by rw [ha.settings_eq, h.haltState]
  delta state symbol := by rw [ha.table_eq, h.delta]

namespace Represents

variable {m : Machine} {c : Configuration}

theorem symbol_eq (h : Represents m c) : m.symbol = c.tape c.head := by
  rw [Machine.symbol, h.tape, h.head]

theorem action?_eq (h : Represents m c) (hr : SameRules M m) :
    m.action? = M.delta c.state (c.tape c.head) := by
  rw [hr.delta, Machine.action?, h.state, h.symbol_eq]

theorem isHalted_iff (h : Represents m c) (hr : SameRules M m) :
    m.isHalted = true ↔ c.state = M.haltState := by
  rw [Machine.isHalted, beq_iff_eq, h.state, hr.haltState]

theorem status_eq (h : Represents m c) (hr : SameRules M m) : m.status = M.status c := by
  unfold Machine.status status
  simp only [h.isHalted_iff hr, h.action?_eq hr, Option.isNone_iff_eq_none]

/-- An action does the same to both: the tapes stay alike at the cell under the head, which takes
the new symbol, and at all others, which keep theirs. -/
theorem apply (h : Represents m c) (a : Action) :
    Represents { m with now := m.apply a } (Textbook.apply c a) where
  tape b := by
    show (m.now.tape.write _ m.now.head a.newSymbol).read _ b =
      Function.update c.tape c.head a.newSymbol b
    rw [Tape.read_write, h.tape, h.head]
    by_cases hb : b = c.head
    · rw [if_pos hb, hb, Function.update_self]
    · rw [if_neg hb, Function.update_of_ne hb]
  head := by
    show m.now.head + _ = c.head + _
    rw [h.head]
  state := rfl

/-- One step keeps the agreement. -/
theorem next (h : Represents m c) (hr : SameRules M m) :
    Represents m.next (M.next c) ∧ SameRules M m.next ∧
      m.next.now.steps = m.now.steps + if M.status c = .running then 1 else 0 := by
  have hstatus := h.status_eq hr
  cases hh : m.isHalted with
  | true =>
    have hc : c.state = M.haltState := (h.isHalted_iff hr).1 hh
    rw [Machine.next_of_isHalted hh, Textbook.next, if_pos hc]
    exact ⟨h, hr, by simp [status, hc]⟩
  | false =>
    have hc : c.state ≠ M.haltState := fun hc => by simp [(h.isHalted_iff hr).2 hc] at hh
    rw [Textbook.next, if_neg hc, ← h.action?_eq hr, status, if_neg hc, ← h.action?_eq hr]
    cases ha : m.action? with
    | none =>
      rw [Machine.next_of_action?_eq_none hh ha]
      exact ⟨h, hr, by simp⟩
    | some a =>
      have happ : m.Applies { m with now := m.apply a } := ⟨hh, a, ha, rfl⟩
      rw [happ.next_eq]
      exact ⟨h.apply a, hr.applies happ, by simp [Machine.apply]⟩

/-- A step reports the halt state of the configuration after it, the failure of the configuration
before it, and otherwise that the machine goes on. -/
theorem step_report (h : Represents m c) (hr : SameRules M m) :
    (m.step.1 = .ok .halted ↔ M.status (M.next c) = .halted) ∧
    (m.step.1 =
        .error { state := c.state, symbol := c.tape c.head, head := c.head, input := m.input } ↔
      M.status c = .stuck) ∧
    (m.step.1 = .ok .running ↔ M.status c = .running ∧ M.status (M.next c) ≠ .halted) := by
  obtain ⟨hc, hr', _⟩ := h.next hr
  rw [← h.status_eq hr, ← hc.status_eq hr']
  obtain ⟨hh, hs⟩ | ⟨hh, ha, hs⟩ | ⟨m', happ, hs⟩ := m.step_cases
  · simp [Machine.next, hs, Machine.status, hh]
  · simp [Machine.next, hs, Machine.status, hh, ha, Machine.stuck, h.state, h.head, h.symbol_eq]
  · obtain ⟨hh, a, ha, _⟩ := happ
    simp only [Machine.next, hs, Machine.status, hh, ha]
    cases hh' : m'.isHalted with
    | true => simp [Machine.signal, hh']
    | false => cases hn : m'.action?.isNone <;> simp [Machine.signal, hh']

end Represents

theorem represents_initial {s : Settings} {t : Table} {input : String} {m : Machine}
    {rules : List Rule} (h : Machine.ofInput s t input = .ok m) :
    Represents m ((ofRules s rules).initial input) := by
  obtain rfl := Machine.now_of_ofInput h
  refine ⟨?_, rfl, rfl⟩
  intro a
  show (Tape.ofInput s.blank input).read s.blank a = _
  rw [Tape.ofInput, Tape.read_writeAll, Tape.read_empty, Int.sub_zero]
  by_cases ha : 0 ≤ a
  · simp only [initial, ofRules, if_pos ha]
  · simp only [initial, ofRules, if_neg ha, Option.getD_none]

/-- After any number of calls of `step` the two machines agree, and the machine has counted, modulo
`2 ^ 64`, the rules that were applied. -/
theorem represents_after {input : String} {m : Machine} (h : Represents m (M.initial input))
    (hr : SameRules M m) (h0 : m.now.steps = 0) (n : Nat) :
    Represents (Machine.next^[n] m) (M.after input n) ∧ SameRules M (Machine.next^[n] m) ∧
      (Machine.next^[n] m).now.steps = UInt64.ofNat (M.applied input n) := by
  induction n with
  | zero => exact ⟨h, hr, h0⟩
  | succ n ih =>
    obtain ⟨ihc, ihr, ihs⟩ := ih
    obtain ⟨hc, hr, hs⟩ := ihc.next ihr
    rw [Function.iterate_succ_apply', after_succ]
    refine ⟨hc, hr, ?_⟩
    rw [hs, ihs, applied, UInt64.ofNat_add]
    by_cases hrun : M.status (M.after input n) = .running
    · rw [if_pos hrun, if_pos hrun]
      rfl
    · rw [if_neg hrun, if_neg hrun]
      rfl

/-- Every run of an accepted program on an accepted input is the run of the textbook machine
whose transition function has exactly the rules of the text as its graph. Call `n + 1` of `step`
reports the halt state if the textbook machine is in it after `n + 1` steps, fails if the
textbook machine is stuck after `n` steps, and reports a running machine if rule `n + 1` was
applied and did not halt. -/
theorem machine_follows_textbook {s : Settings} {text input : String} {p : Program} {m : Machine}
    (hp : Program.ofText s text = .ok p) (hm : p.machine input = .ok m) :
    Rule.parse s text = .ok p.rules ∧
    (∀ state symbol a, (ofRules s p.rules).delta state symbol = some a ↔
      { state, symbol, action := a } ∈ p.rules) ∧
    ∀ n, let M := ofRules s p.rules
      let now := (Machine.next^[n] m).now
      let c := M.after input n
      let report := (Machine.next^[n] m).step.1
      (∀ a, now.tape.read s.blank a = c.tape a) ∧ now.head = c.head ∧ now.state = c.state ∧
      now.steps = UInt64.ofNat (M.applied input n) ∧
      (n < UInt64.size → now.steps.toNat = M.applied input n) ∧
      (report = .ok .halted ↔ M.status (M.after input (n + 1)) = .halted) ∧
      (report = .error { state := c.state, symbol := c.tape c.head, head := c.head, input } ↔
        M.status c = .stuck) ∧
      (report = .ok .running ↔
        M.status c = .running ∧ M.status (M.after input (n + 1)) ≠ .halted) := by
  obtain ⟨_, hparse, hbuild, rfl⟩ := Program.ofText_eq_ok_iff.1 hp
  have hload := Program.machine_eq_ok_iff.1 hm
  refine ⟨hparse, deltaOf_eq_some_iff hbuild, ?_⟩
  intro n M now c report
  have hm0 := Machine.now_of_ofInput hload
  have hrules : SameRules M m := by
    rw [hm0]
    exact ⟨rfl, rfl, deltaOf_eq_get? hbuild⟩
  have h0 : m.now.steps = 0 := by
    rw [hm0]
    rfl
  obtain ⟨hc, hr, hs⟩ := represents_after (represents_initial hload) hrules h0 n
  have htape := hc.tape
  rw [hr.blank] at htape
  obtain ⟨hhalted, hstuck, hrunning⟩ := hc.step_report hr
  have hinput : m.input = input := by
    rw [hm0]
  rw [Machine.iterate_next_input_eq, hinput] at hstuck
  rw [← after_succ] at hhalted hrunning
  refine ⟨htape, hc.head, hc.state, hs, ?_, hhalted, hstuck, hrunning⟩
  intro hn
  have hle := (ofRules p.settings p.rules).applied_le input n
  show (Machine.next^[n] m).now.steps.toNat = _
  rw [hs, UInt64.toNat_ofNat', Nat.mod_eq_of_lt (Nat.lt_of_le_of_lt hle hn)]

/-- A program that leaves one cell of the input behind and is then stuck on the next. -/
theorem machine_follows_textbook_until_stuck :
    ∃ p m, Program.ofText {} "INIT a Q a R\nQ b HALT b R" = .ok p ∧ p.machine "a" = .ok m ∧
      ∀ n, (Machine.next^[n] m).now.head = ((ofRules {} p.rules).after "a" n).head := by
  obtain ⟨p, m, hp, hm, _⟩ := Program.exists_machine {} "INIT a Q a R\nQ b HALT b R" "a"
    (fun _ _ => true) (by decide +kernel)
  exact ⟨p, m, hp, hm, fun n => ((machine_follows_textbook hp hm).2.2 n).2.1⟩

/-- A step may report that the machine goes on although it is stuck from then on: only the next step
fails. -/
theorem step_running_into_stuck :
    ¬ ∀ (s : Settings) (text input : String) (p : Program) (m : Machine),
      Program.ofText s text = .ok p → p.machine input = .ok m → ∀ n,
        let M := ofRules s p.rules
        let c := M.after input (n + 1)
        let report := (Machine.next^[n] m).step.1
        (report = .ok .running ↔ M.status c = .running) ∧
        (report = .ok .halted ↔ M.status c = .halted) ∧
        ((∃ e, report = .error e) ↔ M.status c = .stuck) := by
  intro h
  obtain ⟨p, m, hp, hm, htest⟩ := Program.exists_machine {} "INIT a Q a R\nQ b HALT b R" "a"
    (fun p m => m.step.1.isOk &&
      (ofRules {} p.rules).status ((ofRules {} p.rules).after "a" 1) == .stuck)
    (by decide +kernel)
  simp only [Bool.and_eq_true, beq_iff_eq] at htest
  obtain ⟨e, he⟩ := ((h _ _ _ p m hp hm 0).2.2).2 htest.2
  rw [Function.iterate_zero_apply] at he
  rw [he] at htest
  cases htest.1

end Textbook

end TapeMachine
