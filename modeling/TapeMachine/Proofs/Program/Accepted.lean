import TapeMachine.Program
import TapeMachine.Proofs.Checks

/-!
# Accepted programs and inputs

What it means that a rule text is accepted and that an input is, taken apart into the checks that
are made.
-/

namespace TapeMachine.Program

/-- The checks that a rule text has to pass, in order, and what comes of them. -/
theorem ofText_eq_ok_iff {s : Settings} {text : String} {p : Program} :
    ofText s text = .ok p ↔ s.check = .ok () ∧ Rule.parse s text = .ok p.rules ∧
      Table.build s s.initState s.haltState p.rules = .ok p.table ∧ p.settings = s := by
  rw [ofText]
  simp only [Checks.bind_eq_ok_iff, Checks.mapError_eq_ok_iff]
  constructor
  · rintro ⟨_, hcheck, rules, hrules, table, htable, h⟩
    cases h
    exact ⟨hcheck, hrules, htable, rfl⟩
  · rintro ⟨hcheck, hrules, htable, rfl⟩
    exact ⟨(), hcheck, p.rules, hrules, p.table, htable, rfl⟩

theorem settings_of_ofText {s : Settings} {text : String} {p : Program}
    (h : ofText s text = .ok p) : p.settings = s :=
  (ofText_eq_ok_iff.1 h).2.2.2

theorem machine_eq_ok_iff {p : Program} {input : String} {m : Machine} :
    p.machine input = .ok m ↔ Machine.ofInput p.settings p.table input = .ok m :=
  Checks.mapError_eq_ok_iff

/-- Whether a text and an input are accepted, and the program and the machine pass a test. -/
def passes (s : Settings) (text input : String) (test : Program → Machine → Bool) : Bool :=
  match ofText s text with
  | .ok p =>
    match p.machine input with
    | .ok m => test p m
    | .error _ => false
  | .error _ => false

/-- To find a program and a machine with some property, compute them and look. -/
theorem exists_machine (s : Settings) (text input : String) (test : Program → Machine → Bool)
    (h : passes s text input test = true) :
    ∃ p m, ofText s text = .ok p ∧ p.machine input = .ok m ∧ test p m = true := by
  unfold passes at h
  split at h
  · rename_i p hp
    split at h
    · rename_i m hm
      exact ⟨p, m, hp, hm, h⟩
    · cases h
  · cases h

end TapeMachine.Program
