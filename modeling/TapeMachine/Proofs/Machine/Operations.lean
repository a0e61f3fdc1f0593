import TapeMachine.Proofs.Machine.Bounded
import TapeMachine.Proofs.Tape.Extent

/-!
# Operations on a machine

Whatever is done with a machine, its rules and settings stay, its tape stores no blank, and its
input is one that it accepts. Operations that step apply rules one after the other
(`Machine.exists_reachesIn_run` and its like), and those that put a tape in place drop its blanks;
`Machine.perform_cases` says so once for all of them.

## Main definitions

- `Machine.Operation`, `Machine.performAll`: what can be done with a machine, and a sequence of it
- `Machine.Attainable`: the machines that operations lead to, from an empty tape or from an input

## Main result

- `Machine.tapes_are_canonical`: what the tape of such a machine stores, when two of them are equal,
  and what is read off as its text
-/

namespace TapeMachine.Machine

/-- What can be done with a machine. -/
inductive Operation where
  | load (input : String)
  | step
  | stepN (n : Nat)
  | run (max : UInt64)
  | reset
  | restore (c : Configuration)

/-- The machine after an operation, whatever the operation gives back. -/
def perform (m : Machine) : Operation → Machine
  | .load input => (m.load input).2
  | .step => m.step.2
  | .stepN n => (m.stepN n).2
  | .run max => (m.run max).2
  | .reset => m.reset
  | .restore c => m.restore c

/-- The machine after a sequence of operations. -/
def performAll (m : Machine) (operations : List Operation) : Machine :=
  operations.foldl perform m

/-- The machines that can be had of a table: a new one with an empty tape or with an input, and
whatever operations make of it. -/
inductive Attainable (s : Settings) (t : Table) : Machine → Prop where
  | initial : Attainable s t (.initial s t)
  | ofInput {input : String} {m : Machine} : Machine.ofInput s t input = .ok m → Attainable s t m
  | perform {m : Machine} (o : Operation) : Attainable s t m → Attainable s t (m.perform o)

/-! ## Operations that step -/

section Stepping

variable (m : Machine)

theorem exists_reachesIn_step : ∃ k, m.ReachesIn k m.step.2 := by
  obtain ⟨_, hs⟩ | ⟨_, _, hs⟩ | ⟨m', ha, hs⟩ := m.step_cases
  · rw [hs]
    exact ⟨0, .zero⟩
  · rw [hs]
    exact ⟨0, .zero⟩
  · rw [hs]
    exact ⟨1, .step .zero ha⟩

theorem exists_reachesIn_stepN (n : Nat) : ∃ k, m.ReachesIn k (m.stepN n).2 := by
  induction n generalizing m with
  | zero => exact ⟨0, .zero⟩
  | succ n ih =>
    obtain ⟨hh, _⟩ | ⟨hh, ha, _⟩ | ⟨m', ha, _⟩ := m.step_cases
    · rw [stepN_of_isHalted hh]
      exact ⟨0, .zero⟩
    · rw [stepN_succ_of_action?_eq_none hh ha]
      exact ⟨0, .zero⟩
    · obtain ⟨k, hr⟩ := ih m'
      rw [ha.stepN_succ]
      exact ⟨k + 1, hr.head ha⟩

theorem exists_reachesIn_run (max : UInt64) : ∃ k, m.ReachesIn k (m.run max).2 := by
  obtain ⟨k, m', hr, _, _, ⟨_, hrun⟩ | ⟨_, _, _, hrun⟩⟩ := m.exists_run_end max
  · rw [hrun]
    exact ⟨k, hr⟩
  · rw [hrun]
    exact ⟨k, hr⟩

end Stepping

/-! ## What every operation keeps -/

section Kept

variable {m m' : Machine} {s s' : Settings} {t t' : Table}

theorem load_cases (m : Machine) (input : String) :
    (m.load input).2 = m ∨
      m.inputFault? input = none ∧ (m.load input).2 = { m with input, now := m.started input } := by
  rw [load]
  cases m.inputFault? input with
  | some fault => exact .inl rfl
  | none => exact .inr ⟨rfl, rfl⟩

/-- All that an operation can do: apply some rules, start on an accepted input, or put another
configuration in place that stores no blank. -/
theorem perform_cases (m : Machine) (o : Operation) :
    (∃ k, m.ReachesIn k (m.perform o)) ∨
    (∃ input, m.inputFault? input = none ∧ m.perform o = { m with input, now := m.started input }) ∨
    ∃ c : Configuration, c.tape.Canonical m.settings.blank ∧ m.perform o = { m with now := c } := by
  cases o with
  | load input =>
    obtain heq | ⟨hfault, heq⟩ := m.load_cases input
    · left
      rw [perform, heq]
      exact ⟨0, .zero⟩
    · right; left
      exact ⟨input, hfault, heq⟩
  | step => exact .inl m.exists_reachesIn_step
  | stepN n => exact .inl (m.exists_reachesIn_stepN n)
  | run max => exact .inl (m.exists_reachesIn_run max)
  | reset =>
    right; right
    exact ⟨_, Tape.canonical_ofInput m.settings.blank m.input, rfl⟩
  | restore c =>
    right; right
    exact ⟨_, c.tape.canonical_dropBlanks m.settings.blank, rfl⟩

theorem settings_perform (m : Machine) (o : Operation) : (m.perform o).settings = m.settings := by
  obtain ⟨_, hr⟩ | ⟨_, _, heq⟩ | ⟨_, _, heq⟩ := m.perform_cases o
  · exact hr.settings_eq
  · rw [heq]
  · rw [heq]

theorem table_perform (m : Machine) (o : Operation) : (m.perform o).table = m.table := by
  obtain ⟨_, hr⟩ | ⟨_, _, heq⟩ | ⟨_, _, heq⟩ := m.perform_cases o
  · exact hr.table_eq
  · rw [heq]
  · rw [heq]

theorem canonical_perform (h : m.now.tape.Canonical m.settings.blank) (o : Operation) :
    (m.perform o).now.tape.Canonical (m.perform o).settings.blank := by
  obtain ⟨_, hr⟩ | ⟨input, _, heq⟩ | ⟨_, hc, heq⟩ := m.perform_cases o
  · exact hr.canonical h
  · rw [heq]
    exact Tape.canonical_ofInput m.settings.blank input
  · rw [heq]
    exact hc

/-- The input of a machine is always one that the machine accepts: a refused one is not kept. -/
theorem inputFault?_perform (h : m.inputFault? m.input = none) (o : Operation) :
    (m.perform o).inputFault? (m.perform o).input = none := by
  rw [inputFault?_eq_none_iff, settings_perform, ← inputFault?_eq_none_iff]
  obtain ⟨_, hr⟩ | ⟨_, hfault, heq⟩ | ⟨_, _, heq⟩ := m.perform_cases o
  · rwa [hr.input_eq]
  · rwa [heq]
  · rwa [heq]

theorem settings_performAll (m : Machine) (operations : List Operation) :
    (m.performAll operations).settings = m.settings := by
  induction operations generalizing m with
  | nil => rfl
  | cons o rest ih => exact (ih (m.perform o)).trans (m.settings_perform o)

theorem table_performAll (m : Machine) (operations : List Operation) :
    (m.performAll operations).table = m.table := by
  induction operations generalizing m with
  | nil => rfl
  | cons o rest ih => exact (ih (m.perform o)).trans (m.table_perform o)

theorem Attainable.settings_eq (h : Attainable s t m) : m.settings = s := by
  induction h with
  | initial => rfl
  | ofInput h => rw [now_of_ofInput h]
  | perform o _ ih => rw [settings_perform, ih]

theorem Attainable.table_eq (h : Attainable s t m) : m.table = t := by
  induction h with
  | initial => rfl
  | ofInput h => rw [now_of_ofInput h]
  | perform o _ ih => rw [table_perform, ih]

theorem Attainable.canonical (h : Attainable s t m) : m.now.tape.Canonical s.blank := by
  rw [← h.settings_eq]
  induction h with
  | initial => exact Tape.canonical_empty s.blank
  | @ofInput input m h =>
    rw [now_of_ofInput h]
    exact Tape.canonical_ofInput s.blank input
  | perform o _ ih => exact canonical_perform ih o

theorem Attainable.inputFault?_input (h : Attainable s t m) : m.inputFault? m.input = none := by
  induction h with
  | initial => simp [inputFault?_eq_none_iff, Machine.initial]
  | ofInput h =>
    have hfault := inputFault?_of_ofInput h
    rw [now_of_ofInput h]
    exact hfault
  | perform o _ ih => exact inputFault?_perform ih o

theorem Attainable.report_tape (h : Attainable s t m) :
    m.report.tape = m.now.tape.text s.blank := by
  rw [report, h.settings_eq]

end Kept

/-- Whatever was done with a machine, no cell that it stores holds the blank. So two machines with
the same blank store the same cells just if they read alike at every address; and the text of the
tape is empty just if every address reads as blank, and otherwise has the symbols from the first
address that does not to the last. -/
theorem tapes_are_canonical {s s' : Settings} {t t' : Table} {m m' : Machine}
    (h : Attainable s t m) (h' : Attainable s' t' m') (hblank : s'.blank = s.blank) :
    let tape := m.now.tape
    let text := m.report.tape
    (∀ (a : Int) c, tape.cells[a]? = some c → c ≠ s.blank) ∧
    (tape.cells = m'.now.tape.cells ↔
      ∀ a, tape.read s.blank a = m'.now.tape.read s'.blank a) ∧
    (text = "" ↔ ∀ a, tape.read s.blank a = s.blank) ∧
    (text ≠ "" → ∃ lo hi, tape.Spans s.blank lo hi ∧
      text.toList.length = (hi + 1 - lo).toNat ∧
      (∀ a, lo ≤ a → a ≤ hi → text.toList[(a - lo).toNat]? = some (tape.read s.blank a)) ∧
      text.toList.head? = some (tape.read s.blank lo) ∧
      text.toList.getLast? = some (tape.read s.blank hi)) := by
  intro tape text
  have hc := h.canonical
  have hc' := h'.canonical
  rw [hblank] at hc' ⊢
  have htext : text = tape.text s.blank := h.report_tape
  rw [htext]
  refine ⟨fun a c ha hcb => hc a (hcb ▸ ha), hc.cells_eq_iff hc', hc.text_eq_empty_iff, ?_⟩
  intro hne
  obtain ⟨hempty, _⟩ | ⟨lo, hi, hspans, hslice⟩ := hc.text_cases
  · exact absurd hempty hne
  · rw [hslice]
    exact ⟨lo, hi, hspans, tape.length_slice s.blank lo hi, fun a => Tape.getElem?_slice,
      Tape.head?_slice hspans.le, Tape.getLast?_slice hspans.le⟩

/-- A configuration with stored blanks that is restored, and an input that leaves the same two
cells. -/
theorem tapes_are_canonical_restored :
    let c : Configuration :=
      { steps := 7, tape := .ofCells [(0, 'a'), (1, '_'), (2, 'b')], head := -3, state := "Q" }
    let m := (initial {} .empty).perform (.restore c)
    let m' := (initial {} .empty).perform (.load "a_b__")
    Attainable {} .empty m ∧ Attainable {} .empty m' ∧ m.now.tape.cells = m'.now.tape.cells ∧
      (∀ a, m.now.tape.read '_' a = m'.now.tape.read '_' a) ∧ m.report.tape ≠ "" ∧
      ∃ lo hi, m.now.tape.Spans '_' lo hi ∧ m.report.tape.toList.length = (hi + 1 - lo).toNat := by
  intro c m m'
  have hm : Attainable {} .empty m := .perform (.restore c) .initial
  have hm' : Attainable {} .empty m' := .perform (.load "a_b__") .initial
  have hcells : m.now.tape = m'.now.tape := by decide +kernel
  obtain ⟨_, hread, hempty, htext⟩ := tapes_are_canonical hm hm' rfl
  have hne : m.report.tape ≠ "" := fun h => absurd (hempty.1 h 0) (by decide +kernel)
  obtain ⟨lo, hi, hspans, hlength, _⟩ := htext hne
  exact ⟨hm, hm', congrArg Tape.cells hcells, hread.1 (congrArg Tape.cells hcells), hne, lo, hi,
    hspans, hlength⟩

end TapeMachine.Machine
