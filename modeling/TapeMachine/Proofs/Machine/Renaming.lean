import Mathlib.Logic.Equiv.Basic
import TapeMachine.Proofs.Machine.Lockstep
import TapeMachine.Proofs.Table.Contents
import TapeMachine.Proofs.Tape.Renaming

/-!
# Renamed machines

The names of states and the symbols on the tape mean nothing to a machine. If both are replaced
throughout, in the rules, in the settings and in the input, so that different ones stay different,
the machine does the same under the new names (`Machine.lockstep_renames`).

## Main definitions

- `Rule.rename`, `Settings.rename`, `Configuration.rename`: the same with other names and symbols
- `Machine.Renames`: two machines that differ in names and symbols only

## Main result

- `Machine.renaming_changes_only_names`: runs and steps of the renamed machine are the
  renamed runs and steps
-/

namespace TapeMachine

section Definitions

variable (f : String → String) (p : Char → Char)

/-- The settings with other names for the initial state, the halt state and the blank. -/
def Settings.rename (s : Settings) : Settings :=
  { s with blank := p s.blank, initState := f s.initState, haltState := f s.haltState }

/-- The action with other names for its state and its symbol. -/
def Action.rename (a : Action) : Action :=
  { a with newState := f a.newState, newSymbol := p a.newSymbol }

/-- The rule with other names for its states and its symbols. -/
def Rule.rename (r : Rule) : Rule where
  state := f r.state
  symbol := p r.symbol
  action := r.action.rename f p

/-- The configuration with other names for its state and for the symbols on its tape. -/
def Configuration.rename (c : Configuration) : Configuration :=
  { c with tape := c.tape.map p, state := f c.state }

/-- The head stays where it is. -/
def Stuck.rename (e : Stuck) : Stuck :=
  { e with state := f e.state, symbol := p e.symbol, input := e.input.map p }

/-- The report with other names for the symbols of its tape. -/
def Report.rename (r : Report) : Report :=
  { r with tape := r.tape.map p }

namespace Machine

/-- The machine with other names, which looks for its rules in the table `t`. -/
def rename (m : Machine) (t : Table) : Machine where
  settings := m.settings.rename f p
  table := t
  input := m.input.map p
  now := m.now.rename f p

/-- The second machine is the first one with other names, and with the table `t'` in place of
`t`. -/
structure Renames (t t' : Table) (m m' : Machine) : Prop where
  table : m.table = t
  eq : m' = m.rename f p t'

end Machine

end Definitions

variable {f : String → String} {p : Char → Char} {t t' : Table}

/-- Renamed rules make a table that finds the renamed actions: different states and symbols stay
different, so a place of the new table has no other rules than those of the old place. -/
theorem Table.get?_rename {s s' : Settings} {init init' halt halt' : String} {rules : List Rule}
    (hf : Function.Injective f) (hp : Function.Injective p) (ht : build s init halt rules = .ok t)
    (ht' : build s' init' halt' (rules.map (Rule.rename f p)) = .ok t') (state : String)
    (symbol : Char) :
    t'.get? (f state) (p symbol) = (t.get? state symbol).map (Action.rename f p) := by
  apply Option.ext
  intro a'
  simp only [get?_eq_some_iff_of_build ht', get?_eq_some_iff_of_build ht, List.mem_map,
    Option.map_eq_some_iff]
  constructor
  · -- The rule that was renamed to this place can only have been for the old one.
    rintro ⟨⟨state', symbol', a⟩, hmem, heq⟩
    obtain ⟨hstate, hsymbol, rfl⟩ := Rule.mk.inj heq
    obtain rfl := hf hstate
    obtain rfl := hp hsymbol
    exact ⟨a, hmem, rfl⟩
  · rintro ⟨a, hmem, rfl⟩
    exact ⟨_, hmem, rfl⟩

namespace Machine

variable {m m' m₁ : Machine} {a : Action}

/-! ## One step -/

theorem symbol_rename (m : Machine) (t : Table) : (m.rename f p t).symbol = p m.symbol :=
  Tape.read_map p m.now.tape m.settings.blank m.now.head

theorem isHalted_rename (hf : Function.Injective f) (m : Machine) (t : Table) :
    (m.rename f p t).isHalted = m.isHalted := by
  have hstate : (m.rename f p t).isHalted = (f m.now.state == f m.settings.haltState) := rfl
  rw [hstate, isHalted, Bool.eq_iff_iff, beq_iff_eq, beq_iff_eq, hf.eq_iff]

/-- A renamed action does to the renamed machine what the action does to the machine. -/
theorem apply_rename (hp : Function.Injective p) (m : Machine) (t : Table) (a : Action) :
    (m.rename f p t).apply (a.rename f p) = (m.apply a).rename f p := by
  simp only [apply, rename, Configuration.rename, Settings.rename, Action.rename,
    Tape.write_map m.now.tape m.settings.blank hp]

theorem Renames.action?_eq (h : Renames f p t t' m m')
    (hget : ∀ state symbol, t'.get? (f state) (p symbol) =
      (t.get? state symbol).map (Action.rename f p)) :
    m'.action? = m.action?.map (Action.rename f p) := by
  rw [h.eq, action?, action?, symbol_rename, h.table]
  exact hget m.now.state m.symbol

theorem translates_renames (hf : Function.Injective f) (hsize : t'.size = t.size) :
    Translates (Renames f p t t') (Configuration.rename f p) (Report.rename p)
      (Stuck.rename f p) where
  now_eq h := by
    rw [h.eq]
    rfl
  report_eq {m m'} h := by
    have htext : (m.rename f p t').report.tape = m.report.tape.map p :=
      Tape.text_map p m.now.tape m.settings.blank
    have hrules : (m.rename f p t').report.rules = m.report.rules := by
      show t'.size.toUInt64 = m.table.size.toUInt64
      rw [hsize, h.table]
    rw [h.eq, Report.rename, ← htext, ← hrules,
      ← show _ = m.report.halted from isHalted_rename hf m t']
    rfl
  stuck_eq h := by
    rw [h.eq, stuck, symbol_rename]
    rfl
  steps_eq _ := rfl

theorem lockstep_renames (hf : Function.Injective f) (hp : Function.Injective p)
    (hget : ∀ state symbol, t'.get? (f state) (p symbol) =
      (t.get? state symbol).map (Action.rename f p)) :
    Lockstep (Renames f p t t') where
  isHalted h := by rw [h.eq, isHalted_rename hf]
  applies {m m' m₁} h happ := by
    have hrenamed := h.action?_eq hget
    refine ⟨m₁.rename f p t', ?_, happ.table_eq.trans h.table, rfl⟩
    obtain ⟨hh, a, ha, rfl⟩ := happ
    rw [ha, Option.map_some] at hrenamed
    rw [h.eq] at hrenamed ⊢
    refine ⟨by rw [isHalted_rename hf, hh], a.rename f p, hrenamed, ?_⟩
    rw [apply_rename hp]
    rfl
  stuck h _ ha := by rw [h.action?_eq hget, ha, Option.map_none]

/-! ## Loaded machines -/

theorem renames_of_ofInput {s : Settings} {input : String} (hp : Function.Injective p)
    (hm : ofInput s t input = .ok m) (hm' : ofInput (s.rename f p) t' (input.map p) = .ok m') :
    Renames f p t t' m m' := by
  rw [now_of_ofInput hm, now_of_ofInput hm']
  refine ⟨rfl, ?_⟩
  have htape : Tape.ofInput (s.rename f p).blank (input.map p) =
      (Tape.ofInput s.blank input).map p :=
    Tape.ofInput_map s.blank hp input
  rw [htape]
  rfl

/-- Rules make a table with their settings, and so do the renamed rules with the renamed settings,
where different states and symbols stay different. A run on the renamed input reports the renamed
tape after as many steps, or fails at the same place over the renamed state and symbol. So does any
number of steps, and the machine is left in the renamed configuration, each cell of which holds the
image of the symbol that the other machine has there. -/
theorem renaming_changes_only_names {s : Settings} {rules : List Rule} {input : String}
    (hf : Function.Injective f) (hp : Function.Injective p)
    (ht : Table.build s s.initState s.haltState rules = .ok t)
    (ht' : Table.build (s.rename f p) (f s.initState) (f s.haltState)
      (rules.map (Rule.rename f p)) = .ok t')
    (hm : ofInput s t input = .ok m) (hm' : ofInput (s.rename f p) t' (input.map p) = .ok m') :
    (∀ max, (m'.run max).1 = ((m.run max).1.map (Report.rename p)).mapError (Stuck.rename f p) ∧
      (m'.run max).2.now = (m.run max).2.now.rename f p) ∧
    ∀ n, let now := (m.stepN n).2.now
      let now' := (m'.stepN n).2.now
      (m'.stepN n).1 = (m.stepN n).1.mapError (Stuck.rename f p) ∧ now' = now.rename f p ∧
        ∀ a, now'.tape.read (p s.blank) a = p (now.tape.read s.blank a) := by
  have hlock : Lockstep (Renames f p t t') :=
    lockstep_renames hf hp (Table.get?_rename hf hp ht ht')
  have hrenames := renames_of_ofInput hp hm hm'
  have hsize : t'.size = t.size := by
    rw [Table.size_of_foldlM_add (Table.build_eq_ok_iff.1 ht').1, List.length_map,
      Table.size_of_foldlM_add (Table.build_eq_ok_iff.1 ht).1]
  have hsame := translates_renames (p := p) hf hsize
  refine ⟨hlock.run_eq hrenames hsame, fun n => ?_⟩
  obtain ⟨hresult, hnow⟩ := hlock.stepN_eq hrenames hsame n
  refine ⟨hresult, hnow, fun a => ?_⟩
  rw [hnow]
  exact Tape.read_map p _ s.blank a

/-- A one is erased and written again on the blank next to it, and the same under other names, where
the digit zero is the blank. -/
theorem renaming_changes_only_names_custom :
    let f := (Equiv.swap "INIT" "q0").trans (Equiv.swap "HALT" "qf")
    let p := Equiv.swap '_' '0'
    let rules : List Rule :=
      [⟨"INIT", '1', ⟨"INIT", '_', .right⟩⟩, ⟨"INIT", '_', ⟨"HALT", '1', .left⟩⟩]
    Function.Injective f ∧ Function.Injective p ∧
    ∃ t t' m m', Table.build {} "INIT" "HALT" rules = .ok t ∧
      Table.build (({} : Settings).rename f p) (f "INIT") (f "HALT") (rules.map (Rule.rename f p)) =
        .ok t' ∧
      ofInput {} t "1_1" = .ok m ∧ ofInput (({} : Settings).rename f p) t' "101" = .ok m' ∧
      (m.stepN 9).2.now.steps = 2 ∧ (m'.stepN 9).2.now = (m.stepN 9).2.now.rename f p ∧
      (m'.stepN 9).2.now.steps = 2 ∧ (m'.stepN 9).2.now.state = "qf" := by
  intro f p rules
  obtain ⟨t, m, ht, hm, htwo⟩ := exists_ofInput {} rules "1_1"
    (fun _ m => (m.stepN 9).2.now.steps == 2) (by decide +kernel)
  obtain ⟨t', m', ht', hm', hend⟩ := exists_ofInput (({} : Settings).rename f p)
    (rules.map (Rule.rename f p)) "101"
    (fun _ m' => (m'.stepN 9).2.now.steps == 2 && (m'.stepN 9).2.now.state == "qf")
    (by decide +kernel)
  obtain ⟨htwo', hstate'⟩ := Bool.and_eq_true_iff.1 hend
  have himage : "1_1".map p = "101" := by decide +kernel
  obtain ⟨_, hsteps⟩ :=
    renaming_changes_only_names f.injective p.injective ht ht' hm (himage.symm ▸ hm')
  exact ⟨f.injective, p.injective, t, t', m, m', ht, ht', hm, hm', beq_iff_eq.1 htwo,
    (hsteps 9).2.1, beq_iff_eq.1 htwo', beq_iff_eq.1 hstate'⟩

end Machine

end TapeMachine
