import TapeMachine.Proofs.Machine.Lockstep
import TapeMachine.Proofs.Machine.Operations

/-!
# Restored machines

The configuration of a machine is all that its future depends on. Two machines with the same rules,
blank and halt state that agree on tape, head and state stay in lockstep (`Machine.lockstep_alike`):
how many steps each of them counted before, and what input it was loaded with, changes nothing but
these two numbers and texts. So a configuration that was kept can be restored at any later time.

## Main definitions

- `Machine.loaded?`: the input that an operation loads
- `Machine.Alike`: two machines that differ in their step counts and inputs only

## Main result

- `Machine.restored_machines_continue_alike`: what is restored, and that it goes on as it would have
  then
-/

namespace TapeMachine

theorem Tape.getElem?_dropBlanks_eq_some_iff (t : Tape) (blank : Char) (a : Int) (c : Char) :
    (t.dropBlanks blank).cells[a]? = some c ↔ t.cells[a]? = some c ∧ c ≠ blank := by
  rw [dropBlanks, Std.ExtTreeMap.getElem?_filter', Option.filter_eq_some_iff, bne_iff_ne]

namespace Machine

/-! ## The input that was loaded last -/

/-- The input that an operation loads, if it is a `load` that is not refused. -/
def loaded? (m : Machine) : Operation → Option String
  | .load input => if (m.inputFault? input).isNone then some input else none
  | _ => none

theorem input_perform (m : Machine) (o : Operation) :
    (m.perform o).input = (m.loaded? o).getD m.input := by
  cases o with
  | load input =>
    rw [perform, load, loaded?]
    cases m.inputFault? input with
    | some fault => rfl
    | none => rfl
  | step => exact m.exists_reachesIn_step.choose_spec.input_eq
  | stepN n => exact (m.exists_reachesIn_stepN n).choose_spec.input_eq
  | run max => exact (m.exists_reachesIn_run max).choose_spec.input_eq
  | reset => rfl
  | restore c => rfl

theorem loaded?_perform (m : Machine) (o : Operation) : (m.perform o).loaded? = m.loaded? := by
  funext o'
  cases o' with
  | load input => rw [loaded?, loaded?, inputFault?, inputFault?, settings_perform]
  | _ => rfl

theorem input_performAll (m : Machine) (operations : List Operation) :
    (m.performAll operations).input = (operations.filterMap m.loaded?).getLastD m.input := by
  induction operations generalizing m with
  | nil => rfl
  | cons o rest ih =>
    have hrest := ih (m.perform o)
    rw [loaded?_perform, input_perform] at hrest
    refine hrest.trans ?_
    cases ho : m.loaded? o with
    | none => rw [List.filterMap_cons_none ho, Option.getD_none]
    | some input => rw [List.filterMap_cons_some ho, List.getLastD_cons, Option.getD_some]

/-! ## Machines that differ in their past -/

/-- The second machine has the rules, the blank, the halt state, the tape, the head and the state of
the first one. Its step count is ahead by `offset`, and its input is `input`. -/
structure Alike (offset : UInt64) (input : String) (m m' : Machine) : Prop where
  table_eq : m'.table = m.table
  blank_eq : m'.settings.blank = m.settings.blank
  haltState_eq : m'.settings.haltState = m.settings.haltState
  now_eq : m'.now = { m.now with steps := m.now.steps + offset }
  input_eq : m'.input = input

namespace Alike

variable {offset : UInt64} {input : String} {m m' m₁ : Machine} (h : Alike offset input m m')
include h

theorem isHalted_eq : m'.isHalted = m.isHalted := by
  rw [isHalted, isHalted, h.now_eq, h.haltState_eq]

theorem symbol_eq : m'.symbol = m.symbol := by
  rw [symbol, symbol, h.now_eq, h.blank_eq]

theorem action?_eq : m'.action? = m.action? := by
  rw [action?, action?, h.symbol_eq, h.table_eq, h.now_eq]

theorem stuck_eq : m'.stuck = { m.stuck with input } := by
  rw [stuck, stuck, h.symbol_eq, h.now_eq, h.input_eq]

theorem apply_eq (a : Action) :
    m'.apply a = { m.apply a with steps := m.now.steps + 1 + offset } := by
  have hsteps : m.now.steps + offset + 1 = m.now.steps + 1 + offset := by grind
  rw [apply, apply, h.now_eq, h.blank_eq, hsteps]

theorem applies (ha : m.Applies m₁) : ∃ m₁', m'.Applies m₁' ∧ Alike offset input m₁ m₁' := by
  obtain ⟨hh, a, hget, rfl⟩ := ha
  refine ⟨{ m' with now := m'.apply a }, ⟨?_, a, ?_, rfl⟩, ?_⟩
  · rw [h.isHalted_eq, hh]
  · rw [h.action?_eq, hget]
  · exact ⟨h.table_eq, h.blank_eq, h.haltState_eq, h.apply_eq a, h.input_eq⟩

end Alike

theorem lockstep_alike (offset : UInt64) (input : String) : Lockstep (Alike offset input) where
  isHalted h := h.isHalted_eq
  applies h := h.applies
  stuck h _ ha := h.action?_eq.trans ha

/-- Without an offset, what can be seen of the two machines differs in the inputs only. -/
theorem translates_alike (input : String) :
    Translates (Alike 0 input) id id ({ · with input }) where
  now_eq h := by
    rw [h.now_eq, UInt64.add_zero]
    rfl
  report_eq {m m'} h := by
    rw [report, report, h.isHalted_eq, h.table_eq, h.blank_eq, h.now_eq, UInt64.add_zero]
    rfl
  stuck_eq h := h.stuck_eq
  steps_eq _ := rfl

theorem Alike.stepN {offset : UInt64} {input : String} {m m' : Machine}
    (h : Alike offset input m m') (n : Nat) :
    (m'.stepN n).1 = (m.stepN n).1.mapError ({ · with input }) ∧
      Alike offset input (m.stepN n).2 (m'.stepN n).2 :=
  (lockstep_alike offset input).stepN_mapError h (fun h => h.stuck_eq) n

theorem alike_withInput (m : Machine) (input : String) : Alike 0 input m { m with input } where
  table_eq := rfl
  blank_eq := rfl
  haltState_eq := rfl
  now_eq := by rw [UInt64.add_zero]
  input_eq := rfl

theorem alike_of_agree {m m' : Machine} (htable : m'.table = m.table)
    (hblank : m'.settings.blank = m.settings.blank)
    (hhalt : m'.settings.haltState = m.settings.haltState)
    (htape : m'.now.tape = m.now.tape) (hhead : m'.now.head = m.now.head)
    (hstate : m'.now.state = m.now.state) : Alike (m'.now.steps - m.now.steps) m'.input m m' where
  table_eq := htable
  blank_eq := hblank
  haltState_eq := hhalt
  now_eq := by
    show m'.now = ⟨_, m.now.tape, m.now.head, m.now.state⟩
    rw [← htape, ← hhead, ← hstate, UInt64.add_comm, UInt64.sub_add_cancel]
  input_eq := rfl

/-! ## Restoring -/

/-- Whatever is done in between, the configuration is the same again, and so is all
that operations keep. -/
theorem Attainable.restore_performAll {s : Settings} {t : Table} {m : Machine}
    (h : Attainable s t m) (operations : List Operation) :
    (m.performAll operations).restore m.now =
      { m with input := (m.performAll operations).input } := by
  have hcanonical := h.canonical
  rw [← h.settings_eq] at hcanonical
  rw [restore, settings_performAll, table_performAll, hcanonical.dropBlanks_eq]

/-- A configuration of a machine is kept, and then anything is done with the machine. Restored, it
goes on as the machine would have gone on from there: any number of steps ends in the same
configuration and with the same result, except that a failure shows the input that was loaded
last. A machine that any configuration is restored to has the steps, the head and the state of
that configuration and the cells that do not hold the blank, and nothing of what it had before.
And machines with the same rules, blank and halt state that agree on tape, head and state do so
after any number of steps. -/
theorem restored_machines_continue_alike :
    (∀ (s : Settings) (t : Table) (m : Machine), Attainable s t m →
      ∀ (operations : List Operation) (n : Nat),
      let m' := (m.performAll operations).restore m.now
      m'.input = (operations.filterMap m.loaded?).getLastD m.input ∧
      (m'.stepN n).1 = (m.stepN n).1.mapError ({ · with input := m'.input }) ∧
      (m'.stepN n).2.now = (m.stepN n).2.now) ∧
    (∀ (m : Machine) (c : Configuration),
      let now := (m.restore c).now
      now.steps = c.steps ∧ now.head = c.head ∧ now.state = c.state ∧
      ∀ (a : Int) x, now.tape.cells[a]? = some x ↔
        c.tape.cells[a]? = some x ∧ x ≠ m.settings.blank) ∧
    (∀ m m' : Machine, m'.table = m.table → m'.settings.blank = m.settings.blank →
      m'.settings.haltState = m.settings.haltState → m'.now.tape = m.now.tape →
      m'.now.head = m.now.head → m'.now.state = m.now.state → ∀ n : Nat,
      let now := (m.stepN n).2.now
      let now' := (m'.stepN n).2.now
      (m'.stepN n).1 = (m.stepN n).1.mapError ({ · with input := m'.input }) ∧
      now'.tape = now.tape ∧ now'.head = now.head ∧ now'.state = now.state ∧
      now'.steps - m'.now.steps = now.steps - m.now.steps) := by
  refine ⟨?_, ?_, ?_⟩
  · intro s t m hm operations n m'
    have hrestored : m' = { m with input := m'.input } := hm.restore_performAll operations
    have halike : Alike 0 m'.input m m' := by
      rw [hrestored]
      exact alike_withInput m m'.input
    obtain ⟨hresult, hafter⟩ := halike.stepN n
    refine ⟨m.input_performAll operations, hresult, ?_⟩
    rw [hafter.now_eq, UInt64.add_zero]
  · intro m c now
    exact ⟨rfl, rfl, rfl, c.tape.getElem?_dropBlanks_eq_some_iff m.settings.blank⟩
  · intro m m' htable hblank hhalt htape hhead hstate n now now'
    obtain ⟨hresult, hafter⟩ := (alike_of_agree htable hblank hhalt htape hhead hstate).stepN n
    have hnow' : now' = { now with steps := now.steps + (m'.now.steps - m.now.steps) } :=
      hafter.now_eq
    rw [hnow']
    refine ⟨hresult, rfl, rfl, rfl, ?_⟩
    show now.steps + (m'.now.steps - m.now.steps) - m'.now.steps = now.steps - m.now.steps
    grind

/-- After one step on `aax` the configuration is kept, and restored after other inputs were loaded.
Then the machine gets stuck at the `x` again, and shows the input that was loaded last. A machine
that counted up to 7 before gets there in as many steps. -/
theorem restored_machines_continue_alike_after_load :
    let between : List Operation := [.stepN 2, .load "a", .run 9, .load "a b", .reset]
    ∃ t m e, Attainable {} t m ∧ (m.stepN 3).1 = .error e ∧ e.head = 2 ∧ e.input = "aax" ∧
      (∃ m', m' = (m.performAll between).restore m.now ∧ (m'.stepN 3).2.now = (m.stepN 3).2.now ∧
        (m'.stepN 3).1 = .error { e with input := "a" }) ∧
      ∃ m', m' = { m with now := { m.now with steps := 7 } } ∧
        (m'.stepN 3).2.now.steps - m'.now.steps = (m.stepN 3).2.now.steps - m.now.steps := by
  intro between
  obtain ⟨t, m₀, _, hm₀, htest⟩ := exists_ofInput {}
    [⟨"INIT", 'a', ⟨"INIT", 'b', .right⟩⟩, ⟨"INIT", '_', ⟨"HALT", 'c', .left⟩⟩] "aax"
    (fun _ m₀ =>
      let m := (m₀.stepN 1).2
      match (m.stepN 3).1 with
      | .error e =>
        e.head = 2 && e.input = "aax" && (between.filterMap m.loaded?).getLastD m.input = "a"
      | .ok _ => false) (by decide +kernel)
  have hm : Attainable {} t (m₀.stepN 1).2 := .perform (.stepN 1) (.ofInput hm₀)
  generalize (m₀.stepN 1).2 = m at hm htest
  simp only at htest
  split at htest
  · rename_i e hstuck
    simp only [Bool.and_eq_true, decide_eq_true_eq] at htest
    obtain ⟨⟨hhead, hinput⟩, hloaded⟩ := htest
    obtain ⟨hrestored, _, hlater⟩ := restored_machines_continue_alike
    obtain ⟨hlast, hresult, hnow⟩ := hrestored {} t m hm between 3
    obtain ⟨_, _, _, _, hsteps⟩ :=
      hlater m { m with now := { m.now with steps := 7 } } rfl rfl rfl rfl rfl rfl 3
    refine ⟨t, m, e, hm, hstuck, hhead, hinput, ⟨_, rfl, hnow, ?_⟩, _, rfl, hsteps⟩
    rw [hresult, hstuck, hlast, hloaded]
    rfl
  · cases htest

end Machine

end TapeMachine
