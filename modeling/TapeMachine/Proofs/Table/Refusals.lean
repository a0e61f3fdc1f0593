import Mathlib.Data.List.Induction
import TapeMachine.Proofs.Table.Contents

/-!
# Which rules make a table

The lists of rules that make a table, told without making one, and what is said of the others: the
first rule that is wrong by itself or for the place of an earlier one is blamed
(`Table.BlamesFirst`), and only if there is none what the rules lack as a whole (`Table.Lacks`).
-/

namespace TapeMachine.Table

/-- Neither state of the rule has more than `max` characters. -/
def HasShortNames (max : UInt64) (r : Rule) : Prop :=
  r.state.length ≤ max.toNat ∧ r.action.newState.length ≤ max.toNat

instance (max : UInt64) : DecidablePred (HasShortNames max) :=
  fun _ => inferInstanceAs (Decidable (_ ∧ _))

/-- What is wrong with a rule that comes after the rules `earlier`. Each constructor excludes those
before it. -/
inductive Blames (max : UInt64) (earlier : List Rule) (r : Rule) : Fault → Prop where
  | state : max.toNat < r.state.length →
      Blames max earlier r (.longState r.state r.state.length max)
  | newState : r.state.length ≤ max.toNat → max.toNat < r.action.newState.length →
      Blames max earlier r (.longState r.action.newState r.action.newState.length max)
  | duplicate : HasShortNames max r → r.place ∈ earlier.map Rule.place →
      Blames max earlier r (.duplicate r.state r.symbol)

/-- Nothing is wrong with any of the rules: all names are short, and no two rules are for one
place. -/
structure Unblamed (max : UInt64) (rules : List Rule) : Prop where
  names : ∀ r ∈ rules, HasShortNames max r
  places : (rules.map Rule.place).Nodup

/-- The fault is that of the earliest rule with which something is wrong. -/
def BlamesFirst (max : UInt64) (rules : List Rule) (fault : Fault) : Prop :=
  ∃ pre r post, rules = pre ++ r :: post ∧ Unblamed max pre ∧ Blames max pre r fault

/-- What rules lack as a whole. Each constructor excludes those before it. -/
inductive Lacks (s : Settings) (init halt : String) (rules : List Rule) : Fault → Prop where
  | tooManyStates : s.maxStates.toNat < (rules.map (·.state)).dedup.length →
      Lacks s init halt rules (.tooManyStates (rules.map (·.state)).dedup.length s.maxStates)
  | initialState : (rules.map (·.state)).dedup.length ≤ s.maxStates.toNat →
      (∀ r ∈ rules, r.state ≠ init) → Lacks s init halt rules (.missingInitialState init)
  | haltState : (rules.map (·.state)).dedup.length ≤ s.maxStates.toNat →
      (∃ r ∈ rules, r.state = init) → (∀ r ∈ rules, r.action.newState ≠ halt) →
      Lacks s init halt rules (.haltUnreachable halt)

variable {max : UInt64} {t : Table} {rules : List Rule} {r : Rule} {fault : Fault}

/-! ## One rule -/

theorem checkState_eq_error_iff {state : String} :
    checkState max state = .error fault ↔
      max.toNat < state.length ∧ fault = .longState state state.length max := by
  unfold checkState
  split
  · rename_i hlong
    simp [hlong, eq_comm]
  · rename_i hshort
    simp [hshort]

theorem add_eq_error_iff {earlier : List Rule}
    (ht : (t.get? r.state r.symbol).isSome = true ↔ r.place ∈ earlier.map Rule.place) :
    t.add max r = .error fault ↔ Blames max earlier r fault := by
  rw [add]
  simp only [Checks.bind_eq_error_iff, checkState_eq_error_iff, ht]
  constructor
  · rintro (⟨hlong, rfl⟩ | ⟨_, hstate, ⟨hlong, rfl⟩ | ⟨_, hnew, hplace⟩⟩)
    · exact .state hlong
    · exact .newState (checkState_eq_ok_iff.1 hstate) hlong
    · split at hplace
      · rename_i hdup
        rw [← Except.error.inj hplace]
        exact .duplicate ⟨checkState_eq_ok_iff.1 hstate, checkState_eq_ok_iff.1 hnew⟩ hdup
      · cases hplace
  · intro h
    cases h with
    | state hlong => exact .inl ⟨hlong, rfl⟩
    | newState hstate hlong =>
      exact .inr ⟨(), checkState_eq_ok_iff.2 hstate, .inl ⟨hlong, rfl⟩⟩
    | duplicate hnames hdup =>
      refine .inr ⟨(), checkState_eq_ok_iff.2 hnames.1, .inr ?_⟩
      exact ⟨(), checkState_eq_ok_iff.2 hnames.2, if_pos hdup⟩

/-! ## All rules -/

theorem foldlM_add_concat (max : UInt64) (rules : List Rule) (r : Rule) :
    (rules ++ [r]).foldlM (add max) empty = rules.foldlM (add max) empty >>= (add max · r) := by
  simp [List.foldlM_append]

theorem unblamed_concat_iff : Unblamed max (rules ++ [r]) ↔
    Unblamed max rules ∧ HasShortNames max r ∧ r.place ∉ rules.map Rule.place := by
  constructor
  · rintro ⟨hnames, hplaces⟩
    rw [List.map_append, List.map_singleton, ← List.concat_eq_append, List.nodup_concat] at hplaces
    obtain ⟨hr, hrest⟩ := List.forall_mem_append.1 hnames
    exact ⟨⟨hr, hplaces.2⟩, hrest r List.mem_cons_self, hplaces.1⟩
  · rintro ⟨⟨hnames, hplaces⟩, hr, hnew⟩
    refine ⟨List.forall_mem_append.2 ⟨hnames, by simpa using hr⟩, ?_⟩
    rw [List.map_append, List.map_singleton, ← List.concat_eq_append, List.nodup_concat]
    exact ⟨hnew, hplaces⟩

theorem blamesFirst_concat_iff : BlamesFirst max (rules ++ [r]) fault ↔
    BlamesFirst max rules fault ∨ Unblamed max rules ∧ Blames max rules r fault := by
  constructor
  · rintro ⟨pre, r', post, hsplit, hpre, hblames⟩
    -- The blamed rule is the last one, or the list goes on behind it.
    obtain rfl | ⟨post', last, rfl⟩ := post.eq_nil_or_concat
    · obtain ⟨rfl, hlast⟩ := List.append_inj' hsplit rfl
      obtain rfl : r = r' := (List.cons.inj hlast).1
      exact .inr ⟨hpre, hblames⟩
    · rw [List.concat_eq_append, ← List.cons_append, ← List.append_assoc] at hsplit
      obtain ⟨rfl, _⟩ := List.append_inj' hsplit rfl
      exact .inl ⟨pre, r', post', rfl, hpre, hblames⟩
  · rintro (⟨pre, r', post, rfl, hpre, hblames⟩ | ⟨hrules, hblames⟩)
    · exact ⟨pre, r', post ++ [r], by simp, hpre, hblames⟩
    · exact ⟨rules, r, [], rfl, hrules, hblames⟩

theorem foldlM_add_eq_ok_iff :
    (∃ t, rules.foldlM (add max) empty = .ok t) ↔ Unblamed max rules := by
  induction rules using List.reverseRecOn with
  | nil => exact ⟨fun _ => ⟨by simp, by simp⟩, fun _ => ⟨empty, rfl⟩⟩
  | append_singleton rules r ih =>
    rw [foldlM_add_concat, unblamed_concat_iff, ← ih]
    simp only [Checks.bind_eq_ok_iff, add_eq_ok_iff]
    constructor
    · rintro ⟨_, t, ht, hstate, hnew, hfree, _⟩
      refine ⟨⟨t, ht⟩, ⟨hstate, hnew⟩, ?_⟩
      rw [← get?_isSome_of_foldlM_add ht r.place]
      simp [Rule.place, hfree]
    · rintro ⟨⟨t, ht⟩, ⟨hstate, hnew⟩, hplace⟩
      rw [← get?_isSome_of_foldlM_add ht] at hplace
      exact ⟨_, t, ht, hstate, hnew, by simpa [Rule.place] using hplace, rfl⟩

theorem foldlM_add_eq_error_iff :
    rules.foldlM (add max) empty = .error fault ↔ BlamesFirst max rules fault := by
  -- From the end: a rule is looked at only when those before it were added, and then the table
  -- has just their places.
  induction rules using List.reverseRecOn with
  | nil =>
    constructor
    · intro h
      cases h
    · rintro ⟨pre, r, post, hsplit, _⟩
      simp at hsplit
  | append_singleton rules r ih =>
    rw [foldlM_add_concat, Checks.bind_eq_error_iff, blamesFirst_concat_iff, ih,
      ← foldlM_add_eq_ok_iff]
    refine or_congr_right ?_
    constructor
    · rintro ⟨t, ht, hr⟩
      exact ⟨⟨t, ht⟩, (add_eq_error_iff (get?_isSome_of_foldlM_add ht r.place)).1 hr⟩
    · rintro ⟨⟨t, ht⟩, hr⟩
      exact ⟨t, ht, (add_eq_error_iff (get?_isSome_of_foldlM_add ht r.place)).2 hr⟩

theorem build_eq_error_iff {s : Settings} {init halt : String} :
    build s init halt rules = .error fault ↔ BlamesFirst s.maxStateLen rules fault ∨
      Unblamed s.maxStateLen rules ∧ Lacks s init halt rules fault := by
  rw [build, Checks.bind_eq_error_iff, foldlM_add_eq_error_iff, ← foldlM_add_eq_ok_iff]
  refine or_congr_right ?_
  constructor
  · rintro ⟨t, ht, hchecks⟩
    refine ⟨⟨t, ht⟩, ?_⟩
    have hcount := stateCount_of_foldlM_add ht
    have hinit := hasState_of_foldlM_add ht init
    split at hchecks
    · rename_i hmany
      rw [← Except.error.inj hchecks, hcount]
      exact .tooManyStates (hcount ▸ hmany)
    · rename_i hfew
      have hle : (rules.map (·.state)).dedup.length ≤ s.maxStates.toNat := by omega
      split at hchecks
      · rename_i hno
        rw [← Except.error.inj hchecks]
        refine .initialState hle fun r hr hstate => ?_
        simp [hinit.2 (List.mem_map.2 ⟨r, hr, hstate⟩)] at hno
      · rename_i hsome
        split at hchecks
        · rename_i hno
          rw [← Except.error.inj hchecks]
          refine .haltState hle (List.mem_map.1 (hinit.1 (by simpa using hsome))) ?_
          simpa using hno
        · cases hchecks
  · rintro ⟨⟨t, ht⟩, hlacks⟩
    refine ⟨t, ht, ?_⟩
    have hcount := stateCount_of_foldlM_add ht
    have hinit := hasState_of_foldlM_add ht init
    cases hlacks with
    | tooManyStates hmany => rw [hcount, if_pos hmany]
    | initialState hle hno =>
      have hnone : t.hasState init = false := by
        rw [Bool.eq_false_iff, Ne, hinit, List.mem_map]
        rintro ⟨r, hr, hstate⟩
        exact hno r hr hstate
      rw [if_neg (by omega), if_pos (by simp [hnone])]
    | haltState hle hsome hno =>
      rw [if_neg (by omega), if_neg (by simp [hinit.2 (List.mem_map.2 hsome)]),
        if_pos (by simpa using hno)]

/-- A list of rules makes a table just if all names are short, no two rules are for the same place,
the states are not too many, one of them is the initial state and some rule leads to the halt state.
The table then finds an action exactly where the list has a rule, has as many entries as the list
has rules, and lists the states of the rules in ascending order. Otherwise the earliest wrong rule
is blamed, or if none is wrong by itself, the first of the other three conditions that fails. -/
theorem build_holds_exactly_its_rules (s : Settings) (init halt : String) (rules : List Rule) :
    ((∃ t, build s init halt rules = .ok t) ↔
      (∀ r ∈ rules, HasShortNames s.maxStateLen r) ∧ (rules.map Rule.place).Nodup ∧
      (rules.map (·.state)).dedup.length ≤ s.maxStates.toNat ∧
      (∃ r ∈ rules, r.state = init) ∧ ∃ r ∈ rules, r.action.newState = halt) ∧
    (∀ t, build s init halt rules = .ok t →
      (∀ state symbol a, t.get? state symbol = some a ↔ { state, symbol, action := a } ∈ rules) ∧
      t.size = rules.length ∧ t.entries.length = rules.length ∧
      t.states.Pairwise (· < ·) ∧ (∀ state, state ∈ t.states ↔ ∃ r ∈ rules, r.state = state) ∧
      t.stateCount = t.states.length ∧ ∀ state, t.hasState state = true ↔ state ∈ t.states) ∧
    ∀ fault, build s init halt rules = .error fault ↔ BlamesFirst s.maxStateLen rules fault ∨
      Unblamed s.maxStateLen rules ∧ Lacks s init halt rules fault := by
  refine ⟨?_, ?_, fun fault => build_eq_error_iff⟩
  · constructor
    · rintro ⟨t, ht⟩
      obtain ⟨hadd, hcount, hinit, hhalt⟩ := build_eq_ok_iff.1 ht
      obtain ⟨hnames, hplaces⟩ := foldlM_add_eq_ok_iff.1 ⟨t, hadd⟩
      rw [stateCount_of_foldlM_add hadd] at hcount
      rw [hasState_of_foldlM_add hadd] at hinit
      exact ⟨hnames, hplaces, hcount, List.mem_map.1 hinit, by simpa using hhalt⟩
    · rintro ⟨hnames, hplaces, hcount, hinit, hhalt⟩
      obtain ⟨t, hadd⟩ := foldlM_add_eq_ok_iff.2 ⟨hnames, hplaces⟩
      rw [← stateCount_of_foldlM_add hadd] at hcount
      have hstate := (hasState_of_foldlM_add hadd init).2 (List.mem_map.2 hinit)
      exact ⟨t, build_eq_ok_iff.2 ⟨hadd, hcount, hstate, by simpa using hhalt⟩⟩
  · intro t ht
    have hadd := (build_eq_ok_iff.1 ht).1
    have hplaces := (foldlM_add_eq_ok_iff.1 ⟨t, hadd⟩).places
    refine ⟨get?_eq_some_iff_of_build ht, size_of_foldlM_add hadd,
      length_entries_of_foldlM_add hadd hplaces, t.pairwise_lt_states, ?_, t.length_states.symm,
      fun state => mem_states.symm⟩
    intro state
    rw [mem_states, hasState_of_foldlM_add hadd, List.mem_map]

/-- Two rules of one state, and a third for the place of the first that leads to a state with a long
name: names are looked at before places. -/
theorem build_holds_exactly_its_rules_but_long_duplicate :
    let s : Settings := { maxStateLen := 4 }
    let first : Rule := ⟨"INIT", 'a', ⟨"INIT", 'b', .right⟩⟩
    let last : Rule := ⟨"INIT", '_', ⟨"HALT", 'c', .left⟩⟩
    let again : Rule := ⟨"INIT", 'a', ⟨"AGAIN", 'a', .left⟩⟩
    (∃ t, build s "INIT" "HALT" [first, last] = .ok t ∧
      t.get? "INIT" '_' = some last.action ∧ t.entries.length = 2) ∧
    build s "INIT" "HALT" [first, last, again] = .error (.longState "AGAIN" 5 4) := by
  intro s first last again
  obtain ⟨hok, hholds, _⟩ := build_holds_exactly_its_rules s "INIT" "HALT" [first, last]
  obtain ⟨_, _, herror⟩ := build_holds_exactly_its_rules s "INIT" "HALT" [first, last, again]
  obtain ⟨t, ht⟩ := hok.2 (by decide)
  obtain ⟨hget, _, hentries, _⟩ := hholds t ht
  refine ⟨⟨t, ht, (hget _ _ _).2 (by decide), hentries⟩, ?_⟩
  have hlength : again.action.newState.length = 5 := by decide
  rw [← hlength]
  refine (herror _).2 (.inl ⟨[first, last], again, [], rfl, ⟨by decide, by decide⟩, ?_⟩)
  exact .newState (by decide) (by decide)

end TapeMachine.Table
