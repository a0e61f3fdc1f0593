import Mathlib.Logic.Function.Iterate
import TapeMachine.Machine.Input
import TapeMachine.Machine.Run
import TapeMachine.Proofs.Tape.Canonical

/-!
# Steps and runs of exact length

`Machine.step` either applies one rule or leaves the machine as it is. `Machine.Applies` is the
first case as a relation, and `Machine.ReachesIn` counts how often it happened. What one applied
rule keeps (the rules and the settings, the loaded input, a tape without stored blanks) is proved
once for `Applies`, and by induction for `ReachesIn`.

## Main definitions

- `Machine.next`: the machine after one call of `Machine.step`
- `Machine.Applies`: one rule takes a machine to another
- `Machine.ReachesIn`: a given number of applied rules takes a machine to another
-/

namespace TapeMachine.Machine

/-- The machine after one call of `step`, whatever the call gives back. -/
def next (m : Machine) : Machine :=
  m.step.2

/-- One rule applies to `m`, and `m'` is the machine after it. -/
def Applies (m m' : Machine) : Prop :=
  m.isHalted = false ∧ ∃ a, m.action? = some a ∧ m' = { m with now := m.apply a }

/-- `m.ReachesIn n m'`: exactly `n` rules are applied on the way from `m` to `m'`. -/
inductive ReachesIn (m : Machine) : Nat → Machine → Prop where
  | zero : m.ReachesIn 0 m
  | step {n : Nat} {m₁ m₂ : Machine} : m.ReachesIn n m₁ → m₁.Applies m₂ → m.ReachesIn (n + 1) m₂

/-! ## One step -/

/-- All that a step can do: nothing in the halt state, fail where no rule applies, or apply one. -/
theorem step_cases (m : Machine) :
    (m.isHalted = true ∧ m.step = (.ok .halted, m)) ∨
    (m.isHalted = false ∧ m.action? = none ∧ m.step = (.error m.stuck, m)) ∨
    ∃ m', m.Applies m' ∧ m.step = (.ok m'.signal, m') := by
  cases hh : m.isHalted with
  | true => exact .inl ⟨rfl, step_of_isHalted hh⟩
  | false =>
    cases ha : m.action? with
    | none => exact .inr (.inl ⟨rfl, rfl, step_of_action?_eq_none hh ha⟩)
    | some a => exact .inr (.inr ⟨_, ⟨hh, a, ha, rfl⟩, step_of_action?_eq_some hh ha⟩)

theorem Applies.step_eq {m m' : Machine} (h : m.Applies m') : m.step = (.ok m'.signal, m') := by
  obtain ⟨hh, a, ha, rfl⟩ := h
  exact step_of_action?_eq_some hh ha

theorem Applies.next_eq {m m' : Machine} (h : m.Applies m') : m.next = m' := by
  rw [next, h.step_eq]

theorem next_of_isHalted {m : Machine} (h : m.isHalted = true) : m.next = m := by
  rw [next, step_of_isHalted h]

theorem next_of_action?_eq_none {m : Machine} (h : m.isHalted = false) (ha : m.action? = none) :
    m.next = m := by
  rw [next, step_of_action?_eq_none h ha]

/-! ## What an applied rule keeps -/

theorem Applies.settings_eq {m m' : Machine} (h : m.Applies m') : m'.settings = m.settings := by
  obtain ⟨_, a, _, rfl⟩ := h
  rfl

theorem Applies.table_eq {m m' : Machine} (h : m.Applies m') : m'.table = m.table := by
  obtain ⟨_, a, _, rfl⟩ := h
  rfl

theorem Applies.input_eq {m m' : Machine} (h : m.Applies m') : m'.input = m.input := by
  obtain ⟨_, a, _, rfl⟩ := h
  rfl

theorem Applies.steps_eq {m m' : Machine} (h : m.Applies m') :
    m'.now.steps = m.now.steps + 1 := by
  obtain ⟨_, a, _, rfl⟩ := h
  rfl

/-- Below a limit the step count of a machine does not wrap. -/
theorem Applies.toNat_steps {m m' : Machine} {max : UInt64} (h : m.Applies m')
    (hlt : m.now.steps < max) : m'.now.steps.toNat = m.now.steps.toNat + 1 := by
  have hlt := UInt64.lt_iff_toNat_lt.1 hlt
  have hmax := max.toNat_lt
  rw [h.steps_eq, UInt64.toNat_add, UInt64.toNat_one, Nat.mod_eq_of_lt (by omega)]

/-- An action changes the cell under the head. -/
theorem read_apply (m : Machine) (a : Action) (b : Int) :
    (m.apply a).tape.read m.settings.blank b =
      if b = m.now.head then a.newSymbol else m.now.tape.read m.settings.blank b :=
  m.now.tape.read_write m.settings.blank a.newSymbol m.now.head b

theorem Applies.canonical {m m' : Machine} (h : m.Applies m')
    (hm : m.now.tape.Canonical m.settings.blank) : m'.now.tape.Canonical m'.settings.blank := by
  obtain ⟨_, a, _, rfl⟩ := h
  exact hm.write _ _

theorem iterate_next_input_eq (m : Machine) (n : Nat) : (next^[n] m).input = m.input := by
  induction n with
  | zero => rfl
  | succ n ih =>
    rw [Function.iterate_succ_apply', ← ih]
    obtain ⟨_, hs⟩ | ⟨_, _, hs⟩ | ⟨m', ha, hs⟩ := (next^[n] m).step_cases
    · rw [next, hs]
    · rw [next, hs]
    · rw [ha.next_eq, ha.input_eq]

/-! ## Runs of exact length -/

namespace ReachesIn

variable {m m₁ m₂ : Machine} {n : Nat}

theorem settings_eq (h : m.ReachesIn n m₁) : m₁.settings = m.settings := by
  induction h with
  | zero => rfl
  | step _ ha ih => exact ha.settings_eq.trans ih

theorem table_eq (h : m.ReachesIn n m₁) : m₁.table = m.table := by
  induction h with
  | zero => rfl
  | step _ ha ih => exact ha.table_eq.trans ih

theorem input_eq (h : m.ReachesIn n m₁) : m₁.input = m.input := by
  induction h with
  | zero => rfl
  | step _ ha ih => exact ha.input_eq.trans ih

/-- One more rule in front. -/
theorem head (ha : m.Applies m₁) (h : m₁.ReachesIn n m₂) : m.ReachesIn (n + 1) m₂ := by
  induction h with
  | zero => exact .step .zero ha
  | step _ hlast ih => exact .step ih hlast

theorem trans {k : Nat} (h : m.ReachesIn k m₁) (h' : m₁.ReachesIn n m₂) :
    m.ReachesIn (k + n) m₂ := by
  induction h' with
  | zero => exact h
  | step _ ha ih => exact .step ih ha

/-- As long as the step count does not wrap, it counts the rules applied. -/
theorem toNat_steps (h : m.ReachesIn n m₁) (hn : m.now.steps.toNat + n < UInt64.size) :
    m₁.now.steps.toNat = m.now.steps.toNat + n := by
  induction h with
  | zero => rfl
  | @step n m₁ m₂ _ ha ih =>
    have hsteps := ih (by omega)
    rw [ha.steps_eq, UInt64.toNat_add, UInt64.toNat_one,
      Nat.mod_eq_of_lt (by rw [hsteps]; exact hn), hsteps, Nat.add_assoc]

theorem canonical (h : m.ReachesIn n m₁) (hm : m.now.tape.Canonical m.settings.blank) :
    m₁.now.tape.Canonical m₁.settings.blank := by
  induction h with
  | zero => exact hm
  | step _ ha ih => exact ha.canonical ih

/-- A run of exact length is that many calls of `step`. -/
theorem iterate_next_eq (h : m.ReachesIn n m₁) : next^[n] m = m₁ := by
  induction h with
  | zero => rfl
  | step _ ha ih => rw [Function.iterate_succ_apply', ih, ha.next_eq]

/-- A run of exact length passes through the machines that fewer calls of `step` lead to. -/
theorem iterate_next {i : Nat} (h : m.ReachesIn n m₁) (hi : i ≤ n) :
    m.ReachesIn i (next^[i] m) := by
  induction h with
  | zero =>
    obtain rfl := Nat.le_zero.1 hi
    exact .zero
  | @step n m₁ m₂ hr ha ih =>
    obtain rfl | hlt := Nat.eq_or_lt_of_le hi
    · rw [(hr.step ha).iterate_next_eq]
      exact hr.step ha
    · exact ih (Nat.le_of_lt_succ hlt)

theorem unique (h₁ : m.ReachesIn n m₁) (h₂ : m.ReachesIn n m₂) : m₁ = m₂ :=
  h₁.iterate_next_eq.symm.trans h₂.iterate_next_eq

end ReachesIn

/-! ## Freshly loaded machines -/

/-- A machine that was made for an input is in the configuration that the input starts it in. -/
theorem now_of_ofInput {s : Settings} {t : Table} {input : String} {m : Machine}
    (h : ofInput s t input = .ok m) :
    m = { settings := s, table := t, input, now := .initial s (.ofInput s.blank input) } := by
  unfold ofInput load at h
  split at h
  · cases h
  · rename_i heq
    split at heq
    · cases heq
    · cases h
      cases heq
      rfl

theorem inputFault?_eq_none_iff {m : Machine} {input : String} :
    m.inputFault? input = none ↔
      ' ' ∉ input.toList ∧ input.length ≤ m.settings.maxTapeLen.toNat := by
  unfold inputFault?
  cases hfind : input.toList.findIdx? (· = ' ') with
  | some position =>
    obtain ⟨hlt, hspace, _⟩ := List.findIdx?_eq_some_iff_getElem.1 hfind
    have hmem : ' ' ∈ input.toList := by
      rw [← of_decide_eq_true hspace]
      exact List.getElem_mem hlt
    simp [hmem]
  | none =>
    have hno : ' ' ∉ input.toList := fun hmem => by
      simpa using List.findIdx?_eq_none_iff.1 hfind _ hmem
    simp [hno]

theorem inputFault?_of_ofInput {s : Settings} {t : Table} {input : String} {m : Machine}
    (h : ofInput s t input = .ok m) : (initial s t).inputFault? input = none := by
  unfold ofInput load at h
  cases hf : (initial s t).inputFault? input with
  | none => rfl
  | some fault =>
    rw [hf] at h
    cases h

theorem ofInput_of_inputFault?_eq_none {s : Settings} {t : Table} {input : String}
    (h : (initial s t).inputFault? input = none) :
    ofInput s t input =
      .ok { settings := s, table := t, input, now := .initial s (.ofInput s.blank input) } := by
  rw [ofInput, load, h]
  rfl

/-- Whether rules make a table and an input is accepted, and the table and the machine pass a
test. -/
def passes (s : Settings) (rules : List Rule) (input : String)
    (test : Table → Machine → Bool) : Bool :=
  match Table.build s s.initState s.haltState rules with
  | .ok t =>
    match ofInput s t input with
    | .ok m => test t m
    | .error _ => false
  | .error _ => false

/-- To find a table and a machine with some property, compute them and look. -/
theorem exists_ofInput (s : Settings) (rules : List Rule) (input : String)
    (test : Table → Machine → Bool) (h : passes s rules input test = true) :
    ∃ t m, Table.build s s.initState s.haltState rules = .ok t ∧ ofInput s t input = .ok m ∧
      test t m = true := by
  unfold passes at h
  split at h
  · rename_i t ht
    split at h
    · rename_i m hm
      exact ⟨t, m, ht, hm, h⟩
    · cases h
  · cases h

end TapeMachine.Machine
