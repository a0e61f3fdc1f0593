import Mathlib.Data.List.Nodup
import TapeMachine.Catalogue
import TapeMachine.Proofs.Machine.Facing
import TapeMachine.Proofs.Machine.Textbook
import TapeMachine.Proofs.Program.Run

/-!
# Entries of the catalogue

A sample whose rule text is accepted is found under its name, with a program whose table is the
transition function of the rules that the text spells.
-/

namespace TapeMachine.Catalogue

variable {s s' : Sample} {p : Program}

theorem eq_of_name_eq (hs : s ∈ samples) (hs' : s' ∈ samples) (h : s.name = s'.name) : s = s' := by
  have hnames : (samples.map (·.name)).Nodup := by
    show ["find-end", "unary-addition", "binary-increment", "busy-beaver-2"].Nodup
    simp
  exact List.inj_on_of_nodup_map hnames hs hs' h

theorem compile?_eq_some_iff :
    compile? s = some (s', p) ↔ Program.ofText {} s.rules = .ok p ∧ s' = s := by
  rw [compile?]
  cases h : Program.ofText {} s.rules with
  | error e => simp [Except.toOption]
  | ok q => simp [Except.toOption, and_comm, eq_comm]

theorem find?_name (hs : s ∈ samples) (hp : Program.ofText {} s.rules = .ok p) :
    find? s.name = some (s, p) := by
  have hcompile : compile? s = some (s, p) := compile?_eq_some_iff.2 ⟨hp, rfl⟩
  rw [find?, entries, List.find?_filterMap]
  cases hfind : samples.find? fun x => (compile? x).any (·.1.name == s.name) with
  | none =>
    have hno := List.find?_eq_none.1 hfind s hs
    simp [hcompile] at hno
  | some y =>
    -- Names are unique, so what is found first is the sample itself.
    have hmatch := List.find?_some hfind
    rw [Option.any_eq_true] at hmatch
    obtain ⟨⟨x, q⟩, hxq, hname⟩ := hmatch
    obtain ⟨_, rfl⟩ := compile?_eq_some_iff.1 hxq
    obtain rfl := eq_of_name_eq (List.mem_of_find?_eq_some hfind) hs (beq_iff_eq.1 hname)
    exact hcompile

/-- The program of a sample, by the rules that its text spells. -/
theorem exists_find?_name (hs : s ∈ samples) {rules : List Rule}
    (hrules : (Program.ofText {} s.rules).toOption.map (·.rules) = some rules) :
    ∃ p, find? s.name = some (s, p) ∧ p.settings = {} ∧
      ∀ state symbol, p.table.get? state symbol = Textbook.deltaOf rules state symbol := by
  obtain ⟨p, hp, rfl⟩ := Option.map_eq_some_iff.1 hrules
  cases h : Program.ofText {} s.rules with
  | error e =>
    rw [h] at hp
    cases hp
  | ok q =>
    rw [h] at hp
    obtain rfl := Option.some.inj hp
    obtain ⟨_, _, htable, hsettings⟩ := Program.ofText_eq_ok_iff.1 h
    exact ⟨q, find?_name hs h, hsettings,
      fun state symbol => (Textbook.deltaOf_eq_get? htable state symbol).symm⟩

/-- Where a program of the default settings starts on an input. -/
theorem exists_start (hsettings : p.settings = {}) {input : String} (hspace : ' ' ∉ input.toList)
    (hlength : input.length ≤ ({} : Settings).maxTapeLen.toNat) :
    ∃ m, p.machine input = .ok m ∧ m.Faces {} p.table "INIT" .right [] input.toList := by
  rw [← hsettings] at hlength
  obtain ⟨m, hm⟩ := Program.exists_machine_of_length_le hspace hlength
  have hstart := Machine.faces_of_ofInput (Program.machine_eq_ok_iff.1 hm)
  rw [hsettings] at hstart
  exact ⟨m, hm, hstart⟩

end TapeMachine.Catalogue
