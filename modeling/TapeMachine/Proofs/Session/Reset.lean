import TapeMachine.Proofs.Machine.Operations
import TapeMachine.Proofs.Session.Recorded

/-!
# Starting over

A machine keeps an input that it accepts, whatever was done with it and whatever inputs it refused.
So it can be loaded with its input again, and that is what `Machine.reset` does. A session that is
reset is the session that was started on this input, apart from its step limit: none of the moves
that sessions are made of changes what it would be after a reset (`Session.kept_reset`).

## Main definitions

- `Session.Answer`, `Session.answers`: what operations on a session give back

## Main result

- `Session.reset_starts_over`: what a machine and a session are after a reset
-/

namespace TapeMachine

namespace Machine.Attainable

variable {s : Settings} {t : Table} {m : Machine} (h : Attainable s t m)
include h

theorem load_input : m.load m.input = (.ok (), m.reset) := by
  rw [load, h.inputFault?_input]
  rfl

theorem ofInput_input : Machine.ofInput s t m.input = .ok m.reset := by
  have hfault : (Machine.initial s t).inputFault? m.input = none := by
    have haccepted := h.inputFault?_input
    rw [inputFault?_eq_none_iff, h.settings_eq] at haccepted
    exact inputFault?_eq_none_iff.2 haccepted
  rw [ofInput_of_inputFault?_eq_none hfault, reset, started, h.settings_eq, h.table_eq]

end Machine.Attainable

namespace Session

/-! ## What operations give back -/

/-- What an operation on a session gives back. -/
inductive Answer where
  | stepped (result : Except Stuck (Option Signal))
  | ran (result : Except Stuck Report)
  | rewound (found : Bool)
  | done

/-- What this operation gives back in this session. -/
def answer (s : Session) : Operation → Answer
  | .step => .stepped s.step.1
  | .stepN n => .stepped (s.stepN n).1
  | .run => .ran s.run.1
  | .rewind index => .rewound (s.rewind index).1
  | .reset => .done
  | .setMaxSteps _ => .done

/-- What a sequence of operations gives back, one after the other. -/
def answers (s : Session) : List Operation → List Answer
  | [] => []
  | o :: rest => s.answer o :: (s.perform o).answers rest

/-! ## What a reset forgets -/

theorem reset_advanceTo {s : Session} {m : Machine} (ha : s.machine.Applies m) :
    (s.advanceTo m).reset = s.reset := by
  have hmachine : m.reset = s.machine.reset := by
    rw [Machine.reset, Machine.reset, Machine.started, Machine.started, ha.settings_eq, ha.table_eq,
      ha.input_eq]
  rw [reset, reset, advanceTo, hmachine, Option.map_map]
  rfl

theorem reset_reset (s : Session) : s.reset.reset = s.reset := by
  rw [reset, reset, Option.map_map]
  rfl

/-- Of all that is done with a session, a reset leaves the step limit only. -/
theorem kept_reset (s₀ : Session) : Kept fun s => s.reset = s₀.reset.setMaxSteps s.maxSteps where
  advance _ _ h _ ha := (reset_advanceTo ha).trans h
  restore _ _ _ h _ := h
  reset s h := s.reset_reset.trans h
  setMaxSteps _ max h := congrArg (·.setMaxSteps max) h

theorem reset_performAll (s : Session) (operations : List Operation) :
    (s.performAll operations).reset = s.reset.setMaxSteps (s.performAll operations).maxSteps :=
  (kept_reset s).performAll rfl operations

theorem reset_of_start {p : Program} {input : String} {recorded : Bool} {s : Session}
    (h : start p input recorded = .ok s) : s.reset = s := by
  obtain ⟨m, hm, hs⟩ := Checks.bind_eq_ok_iff.1 h
  obtain rfl := Except.ok.inj hs
  have hmachine : m.reset = m := (Machine.fresh_of_ofInput (Program.machine_eq_ok_iff.1 hm)).reset
  rw [reset, hmachine]
  cases recorded with
  | true => rfl
  | false => rfl

/-- Whatever was done with a machine, the input that it keeps can be loaded, and a reset leaves the
machine that this would leave, which is the machine that is made for the input. Whatever was done
with a session, a reset leaves the machine and the history of the session that was started, and the
step limit as it was set last. So from there on the same operations give back the same as with a new
session, once both have one step limit. -/
theorem reset_starts_over :
    (∀ (s : Settings) (t : Table) (m : Machine), Machine.Attainable s t m →
      m.load m.input = (.ok (), m.reset) ∧ Machine.ofInput s t m.input = .ok m.reset) ∧
    (∀ (p : Program) (input : String) (recorded : Bool) (s : Session),
      start p input recorded = .ok s →
      ∀ operations : List Operation,
      let t := s.performAll operations
      t.reset = { s with maxSteps := t.maxSteps } ∧
      ∀ (max : UInt64) (later : List Operation),
        (t.reset.setMaxSteps max).answers later = (s.setMaxSteps max).answers later ∧
        (t.reset.setMaxSteps max).performAll later = (s.setMaxSteps max).performAll later) := by
  refine ⟨fun s t m hm => ⟨hm.load_input, hm.ofInput_input⟩, ?_⟩
  intro p input recorded s hs operations t
  have hreset : t.reset = s.setMaxSteps t.maxSteps := by
    rw [s.reset_performAll operations, reset_of_start hs]
  have hlimit (max : UInt64) : t.reset.setMaxSteps max = s.setMaxSteps max :=
    congrArg (·.setMaxSteps max) hreset
  refine ⟨hreset, fun max later => ⟨?_, ?_⟩⟩
  · rw [hlimit]
  · rw [hlimit]

/-- A machine that refused an input and was taken to a configuration that it was never in, and a
session that ran, went back and made a step from there, with its limit changed twice. -/
theorem reset_starts_over_after_rewind :
    let operations : List Operation := [.run, .rewind 1, .setMaxSteps 2, .step, .setMaxSteps 5]
    ∃ p m s, Program.ofText {} "INIT a INIT b R\nINIT _ HALT c L" = .ok p ∧ p.machine "aa" = .ok m ∧
      start p "aa" true = .ok s ∧
      (∃ m', m' = (m.perform (.load "a b")).perform (.restore ⟨9, .ofCells [(3, '_')], -4, "Q"⟩) ∧
        m'.load m'.input = (.ok (), m'.reset) ∧
        Machine.ofInput p.settings p.table m'.input = .ok m'.reset) ∧
      (s.performAll operations).reset = { s with maxSteps := 5 } ∧
      ((s.performAll operations).reset.setMaxSteps 1).answers [.run, .rewind 1] =
        (s.setMaxSteps 1).answers [.run, .rewind 1] := by
  intro operations
  obtain ⟨p, m, hp, hm, _⟩ := Program.exists_machine {} "INIT a INIT b R\nINIT _ HALT c L" "aa"
    (fun _ _ => true) (by decide +kernel)
  have hs := start_of_machine hm true
  have hattainable := Machine.Attainable.ofInput (Program.machine_eq_ok_iff.1 hm)
  obtain ⟨hmachine, hsession⟩ := reset_starts_over
  obtain ⟨hreset, hlater⟩ := hsession p "aa" true _ hs operations
  exact ⟨p, m, _, hp, hm, hs, ⟨_, rfl, hmachine _ _ _ (.perform _ (.perform _ hattainable))⟩,
    hreset, (hlater 1 _).1⟩

end Session

end TapeMachine
