import TapeMachine.Proofs.Program.Accepted
import TapeMachine.Proofs.Session.Operations

/-!
# Recorded sessions

A session that records its history holds a prefix of the one run that its machine can make:
entry `i` is the configuration after `i` applied rules, and the machine itself stands at one
of these places or right behind the last. Nothing that can be done with the session changes
this (`Session.Records`).

Recording cuts the history at the step count of the machine and not at the number of entries, so the
invariant has to bound the one by the other.
-/

namespace TapeMachine

namespace Machine

/-- A machine that was just made for an input. -/
structure Fresh (m : Machine) : Prop where
  steps : m.now.steps = 0
  canonical : m.now.tape.Canonical m.settings.blank
  reset : m.reset = m

theorem fresh_of_ofInput {s : Settings} {t : Table} {input : String} {m : Machine}
    (h : ofInput s t input = .ok m) : m.Fresh := by
  obtain rfl := now_of_ofInput h
  exact ⟨rfl, Tape.canonical_ofInput s.blank input, rfl⟩

/-- Going back to a configuration of the run gives the very machine that was there. -/
theorem ReachesIn.restore_eq {m₀ m m' : Machine} {n i : Nat}
    (h0 : m₀.now.tape.Canonical m₀.settings.blank) (h : m₀.ReachesIn n m) (h' : m₀.ReachesIn i m') :
    m.restore m'.now = m' := by
  have htape := (h'.canonical h0).dropBlanks_eq
  rw [h'.settings_eq, ← h.settings_eq] at htape
  rw [restore, htape, h.settings_eq, h.table_eq, h.input_eq, ← h'.settings_eq, ← h'.table_eq,
    ← h'.input_eq]

theorem ReachesIn.reset_eq {m₀ m : Machine} {n : Nat} (h0 : m₀.Fresh) (h : m₀.ReachesIn n m) :
    m.reset = m₀ := by
  rw [← h0.reset, reset, reset, started, started, h.settings_eq, h.table_eq, h.input_eq]

end Machine

namespace Session

/-- The history `h` and the machine `m` belong to the run of `m₀`. -/
structure Records (m₀ : Machine) (h : History) (m : Machine) : Prop where
  entry : ∀ i c, h.toList[i]? = some c →
    ∃ mᵢ, m₀.ReachesIn i mᵢ ∧ mᵢ.now.steps.toNat = i ∧ c = mᵢ.now
  reached : m₀.ReachesIn m.now.steps.toNat m
  steps_le : m.now.steps.toNat ≤ h.toList.length

namespace Records

variable {m₀ m m' : Machine} {h : History}

theorem start (h0 : m₀.Fresh) : Records m₀ .empty m₀ where
  entry i c hc := by simp at hc
  reached := by
    rw [h0.steps]
    exact .zero
  steps_le := by
    rw [h0.steps]
    exact Nat.zero_le _

/-- Recording before a rule is applied: the entries below the step count stay, and the configuration
at the step count comes next. -/
theorem record (hr : Records m₀ h m) {max : UInt64} (hlt : m.now.steps < max) (ha : m.Applies m') :
    Records m₀ (h.record m.now) m' := by
  have hsteps := ha.toNat_steps hlt
  have hle := hr.steps_le
  refine ⟨?_, ?_, ?_⟩
  · intro i c hc
    rw [History.toList_record] at hc
    by_cases hi : i < m.now.steps.toNat
    · rw [List.getElem?_append_left (by rw [List.length_take]; omega),
        List.getElem?_take_of_lt hi] at hc
      exact hr.entry i c hc
    · rw [List.getElem?_append_right (by rw [List.length_take]; omega), List.length_take,
        Nat.min_eq_left hle, List.getElem?_singleton] at hc
      split at hc
      · rename_i hzero
        obtain rfl : i = m.now.steps.toNat := by omega
        exact ⟨m, hr.reached, rfl, (Option.some.inj hc).symm⟩
      · cases hc
  · rw [hsteps]
    exact .step hr.reached ha
  · rw [hsteps, History.toList_record, List.length_append, List.length_take, Nat.min_eq_left hle]
    exact Nat.le_refl _

theorem restore (h0 : m₀.Fresh) (hr : Records m₀ h m) {i : Nat} {c : Configuration}
    (hc : h.toList[i]? = some c) : Records m₀ h (m.restore c) := by
  obtain ⟨mᵢ, hreach, hsteps, rfl⟩ := hr.entry i c hc
  rw [Machine.ReachesIn.restore_eq h0.canonical hr.reached hreach]
  refine ⟨hr.entry, ?_, ?_⟩
  · rw [hsteps]
    exact hreach
  · rw [hsteps]
    exact Nat.le_of_lt (List.getElem?_eq_some_iff.1 hc).1

end Records

theorem seek_eq_some_iff {s : Session} {h : History} (hs : s.history = some h) (index : UInt64)
    (c : Configuration) : s.seek index = some c ↔ h.toList[index.toNat]? = some c := by
  simp [seek, hs, History.get?, History.toList]

theorem seek_isSome_iff {s : Session} {h : History} (hs : s.history = some h) (index : UInt64) :
    (s.seek index).isSome = true ↔ index.toNat < h.length := by
  simp [seek, hs, History.get?, History.length]

theorem rewind_fst (s : Session) (index : UInt64) : (s.rewind index).1 = (s.seek index).isSome := by
  unfold rewind
  split
  · rename_i hc
    simp [hc]
  · rename_i hc
    simp [hc]

theorem rewind_of_seek {s : Session} {index : UInt64} {c : Configuration}
    (hc : s.seek index = some c) :
    s.rewind index = (true, { s with machine := s.machine.restore c }) := by
  rw [rewind, hc]

/-- The elementary moves keep a recorded session on the run of its machine. -/
theorem kept_records {m₀ : Machine} (h0 : m₀.Fresh) :
    Kept fun s => ∃ h, s.history = some h ∧ Records m₀ h s.machine where
  advance s m := by
    rintro ⟨h, hs, hr⟩ hlt ha
    refine ⟨h.record s.machine.now, ?_, hr.record hlt ha⟩
    simp [advanceTo, hs]
  restore s index c := by
    rintro ⟨h, hs, hr⟩ hc
    exact ⟨h, hs, hr.restore h0 ((seek_eq_some_iff hs index c).1 hc)⟩
  reset s := by
    rintro ⟨h, hs, hr⟩
    refine ⟨.empty, ?_, ?_⟩
    · simp [reset, hs]
    · show Records m₀ .empty s.machine.reset
      rw [hr.reached.reset_eq h0]
      exact .start h0
  setMaxSteps s max := id

theorem start_of_machine {p : Program} {input : String} {m : Machine}
    (h : p.machine input = .ok m) (recorded : Bool) :
    start p input recorded = .ok {
      machine := m
      history := if recorded then some .empty else none
      maxSteps := p.settings.maxSteps } := by
  simp [start, h, bind, Except.bind, pure, Except.pure]

/-- After any operations on a recorded session, the machine stands at a place of the run of a
freshly loaded machine that is no later than the end of the history; entry `i` of the history is the
configuration of that run after `i` applied rules; and the session can go back just to these. -/
theorem history_is_prefix_of_run {p : Program} {input : String} {m : Machine} {s : Session}
    (hm : p.machine input = .ok m) (hs : start p input true = .ok s)
    (operations : List Operation) :
    let t := s.performAll operations
    let k := t.machine.now.steps.toNat
    ∃ h, t.history = some h ∧ k ≤ h.length ∧
      (∀ i < h.length, ∃ mᵢ, m.ReachesIn i mᵢ ∧ mᵢ.now.steps.toNat = i ∧
        t.seek (UInt64.ofNat i) = some mᵢ.now) ∧
      (∃ mₖ, m.ReachesIn k mₖ ∧ t.machine.now = mₖ.now) ∧
      ∀ i, ((t.rewind i).1 = true ↔ i.toNat < h.length) ∧
        ((t.rewind i).1 = true → (t.rewind i).2.machine.now.steps = i) := by
  intro t k
  have h0 := Machine.fresh_of_ofInput (Program.machine_eq_ok_iff.1 hm)
  have hstart : ∃ h, s.history = some h ∧ Records m h s.machine := by
    rw [← Except.ok.inj ((start_of_machine hm true).symm.trans hs)]
    exact ⟨.empty, rfl, .start h0⟩
  obtain ⟨h, ht, hr⟩ := (kept_records h0).performAll hstart operations
  refine ⟨h, ht, hr.steps_le, ?_, ⟨_, hr.reached, rfl⟩, ?_⟩
  · intro i hi
    obtain ⟨mᵢ, hreach, hsteps, hc⟩ := hr.entry i _ (List.getElem?_eq_getElem hi)
    have hword := mᵢ.now.steps.toNat_lt
    have hindex : (UInt64.ofNat i).toNat = i := by
      rw [UInt64.toNat_ofNat', Nat.mod_eq_of_lt (by omega)]
    refine ⟨mᵢ, hreach, hsteps, (seek_eq_some_iff ht _ _).2 ?_⟩
    rw [hindex, ← hc]
    exact List.getElem?_eq_getElem hi
  · intro i
    rw [rewind_fst]
    refine ⟨seek_isSome_iff ht i, fun hsome => ?_⟩
    obtain ⟨c, hc⟩ := Option.isSome_iff_exists.1 hsome
    obtain ⟨mᵢ, _, hsteps, rfl⟩ := hr.entry _ c ((seek_eq_some_iff ht i c).1 hc)
    rw [rewind_of_seek hc]
    exact UInt64.toNat_inj.1 hsteps

/-- Run to the end, back into the middle, one step from there, and back to a place that is gone. -/
theorem history_is_prefix_of_run_rewound :
    ∃ p m s, Program.ofText {} "INIT a INIT b R\nINIT _ HALT c L" = .ok p ∧
      p.machine "aaa" = .ok m ∧ start p "aaa" true = .ok s ∧
      ∃ h, (s.performAll [.run, .rewind 1, .step, .rewind 3]).history = some h ∧
        (s.performAll [.run, .rewind 1, .step, .rewind 3]).machine.now.steps.toNat ≤ h.length := by
  obtain ⟨p, m, hp, hm, _⟩ := Program.exists_machine {} "INIT a INIT b R\nINIT _ HALT c L" "aaa"
    (fun _ _ => true) (by decide +kernel)
  have hs := start_of_machine hm true
  obtain ⟨h, hh, hk, _⟩ := history_is_prefix_of_run hm hs [.run, .rewind 1, .step, .rewind 3]
  exact ⟨p, m, _, hp, hm, hs, h, hh, hk⟩

end Session

end TapeMachine
