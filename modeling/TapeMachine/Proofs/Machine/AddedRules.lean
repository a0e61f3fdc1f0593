import TapeMachine.Proofs.Machine.Lockstep
import TapeMachine.Proofs.Table.Build

/-!
# Added rules

A machine that is given more rules does as before wherever it had a rule
(`Machine.simulation_swaps`): a table holds one action for a state and a symbol, so no added rule
takes the place of another. Rules that leave the halt state change nothing at all
(`Machine.lockstep_swaps`), since a machine that has halted looks for no rule.

## Main result

- `Machine.adding_rules_is_conservative`: what a run reports with fewer rules it reports with more,
  and a run that gets stuck passes through the same configuration
-/

namespace TapeMachine

/-! ## Tables with more rules -/

namespace Table

variable {s : Settings} {init halt : String} {rules rules' : List Rule} {t t' : Table}
  (ht : build s init halt rules = .ok t) (ht' : build s init halt rules' = .ok t')
  (hsub : rules ⊆ rules')
include ht ht' hsub

theorem get?_of_subset {state : String} {symbol : Char} {a : Action}
    (h : t.get? state symbol = some a) :
    t'.get? state symbol = some a :=
  (get?_eq_some_iff_of_build ht' state symbol a).2
    (hsub ((get?_eq_some_iff_of_build ht state symbol a).1 h))

theorem get?_eq_of_added {state : String} (hadded : ∀ r ∈ rules', r ∉ rules → r.state ≠ state)
    (symbol : Char) : t'.get? state symbol = t.get? state symbol := by
  apply Option.ext
  intro a
  rw [get?_eq_some_iff_of_build ht', get?_eq_some_iff_of_build ht]
  constructor
  · intro hmem
    by_contra hnew
    exact hadded _ hmem hnew rfl
  · exact fun hmem => hsub hmem

end Table

/-! ## Machines with other rules -/

namespace Machine

/-- The machine as it stands, with other rules. -/
def withTable (m : Machine) (t : Table) : Machine :=
  { m with table := t }

/-- The second machine is the first one with the table `t'` in place of `t`. -/
structure Swaps (s : Settings) (t t' : Table) (m m' : Machine) : Prop where
  settings : m.settings = s
  table : m.table = t
  eq : m' = m.withTable t'

variable {s : Settings} {t t' : Table} {m m' m₁ : Machine}

theorem Swaps.now_eq (h : Swaps s t t' m m') : m'.now = m.now := by
  rw [h.eq]
  rfl

/-- Other rules can be seen by their number only. -/
theorem translates_swaps :
    Translates (Swaps s t t') id ({ · with rules := t'.size.toUInt64 }) id where
  now_eq h := h.now_eq
  report_eq h := by
    rw [h.eq]
    rfl
  stuck_eq h := by
    rw [h.eq]
    rfl
  steps_eq _ := rfl

theorem Swaps.action?_eq (h : Swaps s t t' m m') : m'.action? = t'.get? m.now.state m.symbol := by
  rw [h.eq]
  rfl

theorem Swaps.applies (h : Swaps s t t' m m') (ha : m.Applies m₁) (hsame : m'.action? = m.action?) :
    m'.Applies (m₁.withTable t') ∧ Swaps s t t' m₁ (m₁.withTable t') := by
  refine ⟨?_, ha.settings_eq.trans h.settings, ha.table_eq.trans h.table, rfl⟩
  obtain ⟨hh, a, hget, rfl⟩ := ha
  rw [hget] at hsame
  rw [h.eq] at hsame ⊢
  exact ⟨hh, a, hsame, rfl⟩

theorem simulation_swaps
    (hget : ∀ state symbol a, t.get? state symbol = some a → t'.get? state symbol = some a) :
    Simulation (Swaps s t t') where
  isHalted h := by
    rw [h.eq]
    rfl
  applies {m m' m₁} h ha := by
    have hsame : m'.action? = m.action? := by
      obtain ⟨_, a, hfound, _⟩ := id ha
      rw [h.action?_eq, hfound]
      rw [action?, h.table] at hfound
      exact hget _ _ _ hfound
    exact ⟨_, h.applies ha hsame⟩

/-- Only the rules of states that a machine can be in without having halted count. -/
theorem lockstep_swaps
    (hget : ∀ state symbol, state ≠ s.haltState → t'.get? state symbol = t.get? state symbol) :
    Lockstep (Swaps s t t') := by
  have hsame {m m' : Machine} (h : Swaps s t t' m m') (hh : m.isHalted = false) :
      m'.action? = m.action? := by
    rw [isHalted, h.settings, beq_eq_false_iff_ne] at hh
    rw [h.action?_eq, action?, h.table, hget _ _ hh]
  refine ⟨⟨fun h => ?_, fun h ha => ⟨_, h.applies ha (hsame h ha.1)⟩⟩, fun h hh ha => ?_⟩
  · rw [h.eq]
    rfl
  · rw [hsame h hh, ha]

/-- Whether an input is accepted does not depend on the rules. -/
theorem ofInput_withTable {input : String} (h : ofInput s t input = .ok m) (t' : Table) :
    ofInput s t' input = .ok (m.withTable t') := by
  have hfault : (initial s t').inputFault? input = (initial s t).inputFault? input := rfl
  rw [ofInput, load] at h ⊢
  rw [hfault]
  cases hf : (initial s t).inputFault? input with
  | some fault =>
    rw [hf] at h
    cases h
  | none =>
    rw [hf] at h
    cases h
    rfl

/-- Two lists of rules make tables, and the second has the rules of the first. On every input that
is accepted, a run that the first table brings to a report is brought by the second to a report of
the same tape, steps and halt; and where the first gets stuck, the second has the same
configuration after as many steps. If the second has no other rules than those of the first and
rules that leave the halt state, runs and steps come out the same with both, except for the number
of rules that is reported. -/
theorem adding_rules_is_conservative {rules rules' : List Rule} {input : String}
    (ht : Table.build s s.initState s.haltState rules = .ok t)
    (ht' : Table.build s s.initState s.haltState rules' = .ok t') (hsub : rules ⊆ rules')
    (hm : ofInput s t input = .ok m) :
    ∃ m', ofInput s t' input = .ok m' ∧
      (∀ max r m₁, m.run max = (.ok r, m₁) → ∃ r' m₁', m'.run max = (.ok r', m₁') ∧
        r'.tape = r.tape ∧ r'.steps = r.steps ∧ r'.halted = r.halted ∧ m₁'.now = m₁.now) ∧
      (∀ max e m₁, m.run max = (.error e, m₁) →
        let k := m₁.now.steps.toNat
        m.ReachesIn k m₁ ∧ m'.ReachesIn k (m'.stepN k).2 ∧ (m'.stepN k).2.now = m₁.now) ∧
      ((∀ r ∈ rules', r ∉ rules → r.state = s.haltState) →
        (∀ max, (m'.run max).1 = (m.run max).1.map ({ · with rules := t'.size.toUInt64 }) ∧
          (m'.run max).2.now = (m.run max).2.now) ∧
        ∀ n, (m'.stepN n).1 = (m.stepN n).1 ∧ (m'.stepN n).2.now = (m.stepN n).2.now) := by
  have hstart := now_of_ofInput hm
  have hswaps : Swaps s t t' m (m.withTable t') := by
    rw [hstart]
    exact ⟨rfl, rfl, rfl⟩
  have hsim : Simulation (Swaps s t t') :=
    simulation_swaps fun _ _ _ => Table.get?_of_subset ht ht' hsub
  refine ⟨_, ofInput_withTable hm t', ?_, ?_, ?_⟩
  · intro max r m₁ hrun
    obtain ⟨m₁', hrun', h₁⟩ := hsim.run_of_ok hswaps translates_swaps.now_steps_eq hrun
    have hreport := translates_swaps.report_eq h₁
    obtain rfl := report_of_run hrun
    exact ⟨_, m₁', hrun', by rw [hreport], by rw [hreport], by rw [hreport], h₁.now_eq⟩
  · intro max e m₁ hrun k
    have h0 : m.now.steps = 0 := by
      rw [hstart]
      rfl
    obtain ⟨m₂, hr, _, ⟨_, hend⟩ | ⟨_, _, _, hend⟩⟩ := m.exists_run_end_of_start h0 max
    · cases hend.symm.trans hrun
    · obtain ⟨_, rfl⟩ := Prod.mk.inj (hend.symm.trans hrun)
      -- With more rules the machine need not be stuck here, so its run is followed only so far.
      obtain ⟨m₂', hr', h₂⟩ := hsim.reachesIn hswaps hr
      have hsteps : ((m.withTable t').stepN k).2 = m₂' := by
        rw [← Nat.add_zero k, hr'.stepN_add, stepN]
      rw [hsteps]
      exact ⟨hr, hr', h₂.now_eq⟩
  · intro hadded
    have hlock : Lockstep (Swaps s t t') := lockstep_swaps fun state symbol hne =>
      Table.get?_eq_of_added ht ht' hsub
        (fun r hr hnew heq => hne (heq.symm.trans (hadded r hr hnew))) symbol
    constructor
    · intro max
      obtain ⟨hresult, hnow⟩ := hlock.run_eq hswaps translates_swaps max
      rw [Checks.mapError_id] at hresult
      exact ⟨hresult, hnow⟩
    · intro n
      obtain ⟨hresult, hnow⟩ := hlock.stepN_eq hswaps translates_swaps n
      rw [Checks.mapError_id] at hresult
      exact ⟨hresult, hnow⟩

/-- A rule that leads out of the halt state stands between two others. Without it two steps are made
and no third, and with it no more. -/
theorem adding_rules_is_conservative_at_halt :
    let first : Rule := ⟨"INIT", 'a', ⟨"INIT", 'b', .right⟩⟩
    let back : Rule := ⟨"HALT", 'b', ⟨"INIT", 'a', .right⟩⟩
    let last : Rule := ⟨"INIT", '_', ⟨"HALT", 'c', .left⟩⟩
    ∃ t t' m m', Table.build {} "INIT" "HALT" [first, last] = .ok t ∧
      Table.build {} "INIT" "HALT" [first, back, last] = .ok t' ∧
      [first, last] ⊆ [first, back, last] ∧
      (∀ r ∈ [first, back, last], r ∉ [first, last] → r.state = "HALT") ∧
      ofInput {} t "a" = .ok m ∧ ofInput {} t' "a" = .ok m' ∧
      (m.stepN 3).2.now.steps = 2 ∧ (m'.stepN 3).2.now.steps = 2 ∧
      (m'.run 3).2.now = (m.run 3).2.now := by
  intro first back last
  have hsub : [first, last] ⊆ [first, back, last] := by decide
  have hadded : ∀ r ∈ [first, back, last], r ∉ [first, last] → r.state = "HALT" := by decide
  obtain ⟨t, m, ht, hm, htwo⟩ := exists_ofInput {} [first, last] "a"
    (fun _ m => (m.stepN 3).2.now.steps == 2) (by decide +kernel)
  obtain ⟨t', _, ht', _, _⟩ := exists_ofInput {} [first, back, last] "a" (fun _ _ => true)
    (by decide +kernel)
  obtain ⟨m', hm', _, _, hsame⟩ := adding_rules_is_conservative ht ht' hsub hm
  obtain ⟨hruns, hsteps⟩ := hsame hadded
  have htwo := beq_iff_eq.1 htwo
  exact ⟨t, t', m, m', ht, ht', hsub, hadded, hm, hm', htwo,
    by rw [(hsteps 3).2, htwo], (hruns 3).2⟩

end Machine

end TapeMachine
