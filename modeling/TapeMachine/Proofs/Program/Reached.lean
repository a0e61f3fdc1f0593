import TapeMachine.Proofs.Session.WhiteSpace

/-!
# Machines of a program

A program makes machines out of accepted inputs. What can be done with one of them leaves it a
machine of the program: it keeps the rules and the settings, its tape shows no space and stores no
blank, and its state is a word (`Program.Reaches.proper`).

## Main definitions

- `Program.Reaches`: the machines that running a program leads to
- `Program.Proper`: what can be said of each of them
-/

namespace TapeMachine.Program

open Text

/-- The machines that can be had of a program: those of the inputs that it accepts, and what is made
of a machine by loading another input, by stepping, by starting over, and by putting a configuration
in place that some machine of the program was in. -/
inductive Reaches (p : Program) : Machine → Prop where
  | machine {input : String} {m : Machine} : p.machine input = .ok m → p.Reaches m
  | load {m : Machine} (input : String) : p.Reaches m → p.Reaches (m.load input).2
  | step {m : Machine} : p.Reaches m → p.Reaches m.step.2
  | stepN {m : Machine} (n : Nat) : p.Reaches m → p.Reaches (m.stepN n).2
  | run {m : Machine} (max : UInt64) : p.Reaches m → p.Reaches (m.run max).2
  | reset {m : Machine} : p.Reaches m → p.Reaches m.reset
  | restore {m m' : Machine} : p.Reaches m → p.Reaches m' → p.Reaches (m.restore m'.now)

/-- The machine goes by the rules and the settings of the program, and has a tape, a state and an
input that the program can lead to. -/
structure Proper (p : Program) (m : Machine) : Prop where
  settings_eq : m.settings = p.settings
  table_eq : m.table = p.table
  canonical : m.now.tape.Canonical p.settings.blank
  no_space : ∀ a, m.now.tape.read p.settings.blank a ≠ ' '
  state : IsWord m.now.state.toList
  accepts_input : m.inputFault? m.input = none

variable {s : Settings} {text input : String} {p : Program} {m m' : Machine} {n : Nat}

/-! ## Inputs -/

/-- To load an input is to make the machine of the program on it. -/
theorem load_eq_ok_iff (hsettings : m.settings = p.settings) (htable : m.table = p.table) :
    m.load input = (.ok (), m') ↔ p.machine input = .ok m' := by
  have hfault : m.inputFault? input = (Machine.initial p.settings p.table).inputFault? input := by
    rw [Machine.inputFault?, Machine.inputFault?, hsettings]
    rfl
  rw [machine_eq_ok_iff, Machine.ofInput, Machine.load, Machine.load, hfault]
  cases (Machine.initial p.settings p.table).inputFault? input with
  | some fault => simp
  | none => simp [Machine.started, Machine.initial, hsettings, htable]

/-- To start over is to make the machine of the program again. -/
theorem machine_input_eq_reset (hsettings : m.settings = p.settings) (htable : m.table = p.table)
    (hinput : m.inputFault? m.input = none) : p.machine m.input = .ok m.reset := by
  rw [← load_eq_ok_iff hsettings htable, Machine.load, hinput]
  rfl

/-! ## What every machine of a program has -/

section Proper

variable (hp : ofText s text = .ok p)
include hp

theorem proper_of_machine (hm : p.machine input = .ok m) : p.Proper m := by
  have hinput := machine_eq_ok_iff.1 hm
  have hwhite := Machine.whiteSpaceFrom_of_machine hp hm
  have hfault := Machine.inputFault?_of_ofInput hinput
  obtain rfl := Machine.now_of_ofInput hinput
  refine ⟨rfl, rfl, Tape.canonical_ofInput p.settings.blank input, fun a hspace => ?_,
    hwhite.state, hfault⟩
  obtain ⟨_, hget⟩ := hwhite.tape a (by rw [hspace]; rfl)
  rw [hspace] at hget
  exact Machine.space_notMem_of_ofInput hinput (List.mem_of_getElem? hget)

namespace Proper

omit hp in
theorem canonical_now (h : p.Proper m) : m.now.tape.Canonical m.settings.blank := by
  rw [h.settings_eq]
  exact h.canonical

/-- Rules write no space and lead to states that are words. -/
theorem applies (h : p.Proper m) (ha : m.Applies m') : p.Proper m' := by
  have hcanonical := ha.canonical h.canonical_now
  obtain ⟨_, a, hget, rfl⟩ := ha
  rw [Machine.action?, h.table_eq] at hget
  obtain ⟨hsymbol, hstate⟩ := isWord_of_get? hp hget
  refine ⟨h.settings_eq, h.table_eq, h.settings_eq ▸ hcanonical, fun b => ?_, hstate,
    h.accepts_input⟩
  dsimp only
  rw [← h.settings_eq, Machine.read_apply, h.settings_eq]
  split
  · intro hspace
    rw [hspace] at hsymbol
    cases hsymbol
  · exact h.no_space b

theorem reachesIn (h : p.Proper m) (hr : m.ReachesIn n m') : p.Proper m' := by
  induction hr with
  | zero => exact h
  | step _ ha ih => exact ih.applies hp ha

omit hp in
theorem restore (h : p.Proper m) (h' : p.Proper m') : p.Proper (m.restore m'.now) := by
  have hnow : m.restore m'.now = { m with now := m'.now } := by
    rw [Machine.restore, h.settings_eq, h'.canonical.dropBlanks_eq]
  rw [hnow]
  exact ⟨h.settings_eq, h.table_eq, h'.canonical, h'.no_space, h'.state, h.accepts_input⟩

end Proper

theorem Reaches.proper (h : p.Reaches m) : p.Proper m := by
  induction h with
  | machine hm => exact proper_of_machine hp hm
  | @load m input _ ih =>
    obtain heq | ⟨hfault, _⟩ := m.load_cases input
    · rwa [heq]
    · have hload : m.load input = (.ok (), (m.load input).2) := by
        rw [Machine.load, hfault]
      exact proper_of_machine hp ((load_eq_ok_iff ih.settings_eq ih.table_eq).1 hload)
  | @step m _ ih =>
    obtain ⟨_, hr⟩ := m.exists_reachesIn_step
    exact ih.reachesIn hp hr
  | @stepN m n _ ih =>
    obtain ⟨_, hr⟩ := m.exists_reachesIn_stepN n
    exact ih.reachesIn hp hr
  | @run m max _ ih =>
    obtain ⟨_, hr⟩ := m.exists_reachesIn_run max
    exact ih.reachesIn hp hr
  | reset _ ih =>
    exact proper_of_machine hp (machine_input_eq_reset ih.settings_eq ih.table_eq ih.accepts_input)
  | restore _ _ ih ih' => exact ih.restore ih'

end Proper

end TapeMachine.Program
