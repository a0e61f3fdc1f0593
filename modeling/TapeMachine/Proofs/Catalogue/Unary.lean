import TapeMachine.Proofs.Catalogue.Entries

/-!
# The samples that count bars

One sample adds two numbers of bars: it puts a bar in the place of the separator and takes the last
bar away. It gets stuck on a tape without a separator, at its end, and on a tape with several, at
the second one. The other sample goes to the end of a number of bars and adds one.

## Main results

- `Sample.exists_joined`, `Sample.exists_summed`: the two halves of an addition
- `Sample.unary_samples_do_as_described`: when the samples halt, after how many steps
  and with what on the tape
- `Sample.tape_limit_binds_find_end`: a tape of bars that is over the limit is not loaded
-/

namespace TapeMachine.Sample

/-! ## Bars and separators -/

theorem eq_bars {w : List Char} (hw : ∀ c ∈ w, c = '|' ∨ c = '+') (hno : '+' ∉ w) :
    w = List.replicate w.length '|' := by
  refine List.eq_replicate_of_mem fun c hc => (hw c hc).resolve_right ?_
  rintro rfl
  exact hno hc

/-- A tape begins with bars, up to its end or up to a separator. -/
theorem bars_cases {w : List Char} (hw : ∀ c ∈ w, c = '|' ∨ c = '+') :
    w = List.replicate w.length '|' ∨
    ∃ a rest, w = List.replicate a '|' ++ '+' :: rest ∧ ∀ c ∈ rest, c = '|' ∨ c = '+' := by
  by_cases hmem : '+' ∈ w
  · obtain ⟨bars, rest, rfl, hno⟩ := List.eq_append_cons_of_mem hmem
    have hbars := eq_bars (fun c hc => hw c (List.mem_append_left _ hc)) hno
    refine .inr ⟨bars.length, rest, ?_, fun c hc => hw c (by simp [hc])⟩
    rw [← hbars]
  · exact .inl (eq_bars hw hmem)

theorem count_bars (n : Nat) : (List.replicate n '|').count '+' = 0 :=
  List.count_eq_zero.2 fun hmem => absurd (List.eq_of_mem_replicate hmem) (by decide)

theorem count_separated (a : Nat) (rest : List Char) :
    (List.replicate a '|' ++ '+' :: rest).count '+' = rest.count '+' + 1 := by
  rw [List.count_append, count_bars, Nat.zero_add, List.count_cons_self]

/-- A tape with one separator is a sum of two numbers of bars. -/
theorem exists_sum_of_count {w : List Char} (hw : ∀ c ∈ w, c = '|' ∨ c = '+')
    (h : w.count '+' = 1) :
    ∃ a b, w = List.replicate a '|' ++ '+' :: List.replicate b '|' := by
  obtain hbars | ⟨a, rest, rfl, hrest⟩ := bars_cases hw
  · rw [hbars, count_bars] at h
    cases h
  · rw [count_separated, Nat.add_eq_right] at h
    have hbars := eq_bars hrest (List.count_eq_zero.1 h)
    exact ⟨a, rest.length, by rw [← hbars]⟩

/-! ## Adding -/

/-- The rules that the text of the `unary-addition` sample spells. -/
def unaryAdditionRules : List Rule :=
  [⟨"INIT", '|', ⟨"INIT", '|', .right⟩⟩, ⟨"INIT", '+', ⟨"SEEK", '|', .right⟩⟩,
    ⟨"SEEK", '|', ⟨"SEEK", '|', .right⟩⟩, ⟨"SEEK", '_', ⟨"ERASE", '_', .left⟩⟩,
    ⟨"ERASE", '|', ⟨"HALT", '_', .left⟩⟩]

theorem rules_unaryAddition :
    (Program.ofText {} unaryAddition.rules).toOption.map (·.rules) = some unaryAdditionRules := by
  rw [Program.ofText, Rule.parse, ← String.length_toList]
  -- A literal is the text of its characters, so none of them has to be decoded.
  simp only [unaryAddition, String.toList_append]
  repeat rw [String.toList_ofList]
  decide +kernel

theorem exists_find?_unaryAddition :
    ∃ p, Catalogue.find? "unary-addition" = some (unaryAddition, p) ∧ p.settings = {} ∧
      ∀ state symbol, p.table.get? state symbol =
        Textbook.deltaOf unaryAdditionRules state symbol := by
  have hmem : unaryAddition ∈ Catalogue.samples := by simp [Catalogue.samples]
  exact Catalogue.exists_find?_name hmem rules_unaryAddition

/-- A state that keeps bars goes over them to the right. -/
theorem exists_over_bars {t : Table} {m : Machine} {state : String} {n : Nat}
    {behind ahead : List Char} (hget : t.get? state '|' = some ⟨state, '|', .right⟩)
    (hne : state ≠ "HALT") (h : m.Faces {} t state .right behind (List.replicate n '|' ++ ahead)) :
    ∃ m', m.ReachesIn n m' ∧ m'.Faces {} t state .right (List.replicate n '|' ++ behind) ahead := by
  obtain ⟨m', hr, h'⟩ := h.exists_pass hne id fun c hc => by
    rw [List.eq_of_mem_replicate hc]
    exact hget
  rw [List.map_id, List.reverse_replicate] at h'
  rw [List.length_replicate] at hr
  exact ⟨m', hr, h'⟩

section Adding

variable {t : Table} {m : Machine} {a b : Nat} {rest : List Char}
  (hrules : ∀ state symbol, t.get? state symbol = Textbook.deltaOf unaryAdditionRules state symbol)
include hrules

/-- A bar takes the place of the separator. -/
theorem exists_joined (h : m.Faces {} t "INIT" .right [] (List.replicate a '|' ++ '+' :: rest)) :
    ∃ m', m.ReachesIn (a + 1) m' ∧
      m'.Faces {} t "SEEK" .right (List.replicate (a + 1) '|') rest := by
  obtain ⟨m₁, hr, h₁⟩ := exists_over_bars ((hrules _ _).trans (by decide)) (by decide) h
  have hseparator : t.get? "INIT" '+' = some ⟨"SEEK", '|', .right⟩ := (hrules _ _).trans (by decide)
  obtain ⟨m₂, ha, h₂⟩ := h₁.exists_onward (by decide) hseparator
  rw [List.append_nil, ← List.replicate_succ] at h₂
  exact ⟨m₂, hr.step ha, h₂⟩

/-- The last bar is taken away. -/
theorem exists_summed
    (h : m.Faces {} t "SEEK" .right (List.replicate (a + 1) '|') (List.replicate b '|')) :
    ∃ m', m.ReachesIn (b + 2) m' ∧ m'.isHalted = true ∧
      m'.report.tape.toList = List.replicate (a + b) '|' := by
  rw [← List.append_nil (List.replicate b '|')] at h
  obtain ⟨m₁, hr, h₁⟩ := exists_over_bars ((hrules _ _).trans (by decide)) (by decide) h
  have hend : t.get? "SEEK" '_' = some ⟨"ERASE", '_', Direction.right.opposite⟩ :=
    (hrules _ _).trans (by decide)
  obtain ⟨m₂, ha₂, h₂⟩ := h₁.exists_back (by decide) hend
  have hbars : List.replicate b '|' ++ List.replicate (a + 1) '|' =
      '|' :: List.replicate (a + b) '|' := by
    rw [List.replicate_append_replicate, ← List.replicate_succ]
    congr 1
    omega
  replace h₂ := Machine.Faces.behind_blank_iff.1 h₂
  rw [hbars] at h₂
  have hlast : t.get? "ERASE" '|' = some ⟨"HALT", '_', .left⟩ := (hrules _ _).trans (by decide)
  obtain ⟨m₃, ha₃, h₃⟩ := h₂.exists_onward (by decide) hlast
  replace h₃ := Machine.Faces.behind_blank_iff.1 h₃
  refine ⟨m₃, (hr.step ha₂).step ha₃, h₃.isHalted_eq, ?_⟩
  have hkept : ∀ c ∈ List.replicate (a + b) '|', c ≠ '_' := fun c hc => by
    rw [List.eq_of_mem_replicate hc]
    decide
  rw [h₃.report_left (by simp) hkept, List.tail_cons, List.reverse_replicate, List.append_nil]

/-- Without a separator no rule applies at the end of the tape. -/
theorem exists_stuck_without_separator (h : m.Faces {} t "INIT" .right [] (List.replicate a '|')) :
    ∃ m', m.ReachesIn a m' ∧ m'.isHalted = false ∧ m'.action? = none := by
  rw [← List.append_nil (List.replicate a '|')] at h
  obtain ⟨m', hr, h'⟩ := exists_over_bars ((hrules _ _).trans (by decide)) (by decide) h
  refine ⟨m', hr, h'.isHalted_eq, ?_⟩
  rw [h'.action?_eq]
  exact (hrules _ _).trans (by decide)

/-- At a second separator no rule applies. -/
theorem exists_stuck_at_separator {behind : List Char}
    (h : m.Faces {} t "SEEK" .right behind (List.replicate b '|' ++ '+' :: rest)) :
    ∃ m', m.ReachesIn b m' ∧ m'.isHalted = false ∧ m'.action? = none := by
  obtain ⟨m', hr, h'⟩ := exists_over_bars ((hrules _ _).trans (by decide)) (by decide) h
  refine ⟨m', hr, h'.isHalted_eq, ?_⟩
  rw [h'.action?_eq]
  exact (hrules "SEEK" '+').trans (by decide)

end Adding

/-! ## Going to the end -/

/-- The rules that the text of the `find-end` sample spells. -/
def findEndRules : List Rule :=
  [⟨"INIT", '|', ⟨"FIND", '|', .right⟩⟩, ⟨"FIND", '|', ⟨"FIND", '|', .right⟩⟩,
    ⟨"FIND", '_', ⟨"HALT", '|', .right⟩⟩]

theorem rules_findEnd :
    (Program.ofText {} findEnd.rules).toOption.map (·.rules) = some findEndRules := by
  rw [Program.ofText, Rule.parse, ← String.length_toList]
  simp only [findEnd, String.toList_append]
  repeat rw [String.toList_ofList]
  decide +kernel

theorem exists_find?_findEnd :
    ∃ p, Catalogue.find? "find-end" = some (findEnd, p) ∧ p.settings = {} ∧
      ∀ state symbol, p.table.get? state symbol = Textbook.deltaOf findEndRules state symbol := by
  have hmem : findEnd ∈ Catalogue.samples := by simp [Catalogue.samples]
  exact Catalogue.exists_find?_name hmem rules_findEnd

/-- The first bar is passed in a state of its own. -/
theorem exists_appended {t : Table} {m : Machine} {n : Nat}
    (hrules : ∀ state symbol, t.get? state symbol = Textbook.deltaOf findEndRules state symbol)
    (h : m.Faces {} t "INIT" .right [] (List.replicate (n + 1) '|')) :
    ∃ m', m.ReachesIn (n + 2) m' ∧ m'.isHalted = true ∧
      m'.report.tape.toList = List.replicate (n + 2) '|' := by
  have hfirst : t.get? "INIT" '|' = some ⟨"FIND", '|', .right⟩ := (hrules _ _).trans (by decide)
  obtain ⟨m₁, ha₁, h₁⟩ := h.exists_onward (by decide) hfirst
  rw [List.replicate_succ, List.tail_cons, ← List.append_nil (List.replicate n '|')] at h₁
  obtain ⟨m₂, hr, h₂⟩ := exists_over_bars ((hrules _ _).trans (by decide)) (by decide) h₁
  have hend : t.get? "FIND" '_' = some ⟨"HALT", '|', .right⟩ := (hrules _ _).trans (by decide)
  obtain ⟨m₃, ha₃, h₃⟩ := h₂.exists_onward (by decide) hend
  have hbars : '|' :: (List.replicate n '|' ++ ['|']) = List.replicate (n + 2) '|' := by
    rw [← List.replicate_succ', ← List.replicate_succ]
  rw [hbars] at h₃
  refine ⟨m₃, (hr.head ha₁).step ha₃, h₃.isHalted_eq, ?_⟩
  have hwritten : ∀ c ∈ List.replicate (n + 2) '|', c ≠ '_' := fun c hc => by
    rw [List.eq_of_mem_replicate hc]
    decide
  rw [h₃.report_right hwritten (by simp), List.reverse_replicate]
  exact List.append_nil _

/-! ## Runs of the samples -/

section Runs

variable {p : Program} {w : String} {m : Machine} {limit : Option UInt64} {a b : Nat}
  (hrules : ∀ state symbol, p.table.get? state symbol =
    Textbook.deltaOf unaryAdditionRules state symbol)
  (hm : p.machine w = .ok m) (hstart : m.Faces {} p.table "INIT" .right [] w.toList)
  (hlimit : w.toList.length + 2 ≤ (limit.getD p.settings.maxSteps).toNat)
include hrules hm hstart hlimit

theorem run_of_sum (hw : w.toList = List.replicate a '|' ++ '+' :: List.replicate b '|') :
    ∃ r, p.run w limit = .ok r ∧ r.halted = true ∧ r.steps.toNat = a + b + 3 ∧
      r.tape.toList = List.replicate (a + b) '|' := by
  rw [hw] at hstart
  rw [hw, List.length_append, List.length_cons, List.length_replicate,
    List.length_replicate] at hlimit
  obtain ⟨m₁, hr₁, h₁⟩ := exists_joined hrules hstart
  obtain ⟨m₂, hr₂, hh, htape⟩ := exists_summed hrules h₁
  have hwithin : a + 1 + (b + 2) ≤ (limit.getD p.settings.maxSteps).toNat := by omega
  obtain ⟨hrun, hhalted, hsteps⟩ := Program.run_of_isHalted hm (hr₁.trans hr₂) hh hwithin
  exact ⟨m₂.report, hrun, hhalted, by omega, htape⟩

theorem run_of_count_ne_one (hw : ∀ c ∈ w.toList, c = '|' ∨ c = '+')
    (hne : w.toList.count '+' ≠ 1) :
    ∃ e, p.run w limit = .error (.stuck e) := by
  obtain hbars | ⟨a, rest, hseparated, hrest⟩ := bars_cases hw
  · rw [hbars] at hstart
    obtain ⟨m', hr, hh, ha⟩ := exists_stuck_without_separator hrules hstart
    exact ⟨_, Program.run_of_stuck hm hr hh ha (by omega)⟩
  · rw [hseparated] at hstart hne hlimit
    rw [count_separated] at hne
    obtain ⟨m₁, hr₁, h₁⟩ := exists_joined hrules hstart
    obtain hbars | ⟨b, rest', rfl, _⟩ := bars_cases hrest
    · rw [hbars, count_bars] at hne
      exact absurd rfl hne
    · simp only [List.length_append, List.length_cons, List.length_replicate] at hlimit
      obtain ⟨m₂, hr₂, hh, ha⟩ := exists_stuck_at_separator hrules h₁
      exact ⟨_, Program.run_of_stuck hm (hr₁.trans hr₂) hh ha (by omega)⟩

end Runs

/-- The sample named `unary-addition`, on a tape of bars and separators and with two steps more than
the tape has symbols, halts just if there is one separator: it has added the bars on both sides
then, and otherwise it is stuck. The sample named `find-end` adds a bar to any number of them that
is not zero. Both are told for the tapes that the tape limit lets through. -/
theorem unary_samples_do_as_described :
    (∃ p, Catalogue.find? "unary-addition" = some (unaryAddition, p) ∧
      ∀ (w : String) (limit : Option UInt64), (∀ c ∈ w.toList, c = '|' ∨ c = '+') →
        w.length ≤ ({} : Settings).maxTapeLen.toNat →
        w.length + 2 ≤ (limit.getD p.settings.maxSteps).toNat →
        ((∃ r, p.run w limit = .ok r ∧ r.halted = true) ↔ w.toList.count '+' = 1) ∧
        (∀ a b, w.toList = List.replicate a '|' ++ '+' :: List.replicate b '|' →
          ∃ r, p.run w limit = .ok r ∧ r.halted = true ∧ r.steps.toNat = a + b + 3 ∧
            r.tape.toList = List.replicate (a + b) '|') ∧
        (w.toList.count '+' ≠ 1 → ∃ e, p.run w limit = .error (.stuck e))) ∧
    (∃ p, Catalogue.find? "find-end" = some (findEnd, p) ∧
      ∀ (n : Nat) (limit : Option UInt64), 1 ≤ n → n ≤ ({} : Settings).maxTapeLen.toNat →
        n + 1 ≤ (limit.getD p.settings.maxSteps).toNat →
        ∃ r, p.run (String.ofList (List.replicate n '|')) limit = .ok r ∧ r.halted = true ∧
          r.steps.toNat = n + 1 ∧ r.tape.toList = List.replicate (n + 1) '|') := by
  obtain ⟨p, hfind, hsettings, hrules⟩ := exists_find?_unaryAddition
  obtain ⟨p', hfind', hsettings', hrules'⟩ := exists_find?_findEnd
  refine ⟨⟨p, hfind, ?_⟩, p', hfind', ?_⟩
  · intro w limit hw hlength hlimit
    have hspace : ' ' ∉ w.toList := fun hmem => by
      obtain h | h := hw _ hmem <;> cases h
    obtain ⟨m, hm, hstart⟩ := Catalogue.exists_start hsettings hspace hlength
    rw [← String.length_toList] at hlimit
    have hsum := fun a b => run_of_sum hrules hm hstart hlimit (a := a) (b := b)
    have hother := run_of_count_ne_one hrules hm hstart hlimit hw
    refine ⟨⟨fun ⟨r, hrun, _⟩ => ?_, fun hone => ?_⟩, hsum, hother⟩
    · by_contra hne
      obtain ⟨e, he⟩ := hother hne
      cases hrun.symm.trans he
    · obtain ⟨a, b, hab⟩ := exists_sum_of_count hw hone
      obtain ⟨r, hrun, hhalted, _⟩ := hsum a b hab
      exact ⟨r, hrun, hhalted⟩
  · intro n limit hn hlength hlimit
    obtain ⟨k, rfl⟩ := Nat.exists_eq_succ_of_ne_zero (Nat.pos_iff_ne_zero.1 hn)
    have hspace : ' ' ∉ (String.ofList (List.replicate (k + 1) '|')).toList := by simp
    obtain ⟨m, hm, hstart⟩ := Catalogue.exists_start hsettings' hspace (by simpa using hlength)
    rw [String.toList_ofList] at hstart
    obtain ⟨m', hr, hh, htape⟩ := exists_appended hrules' hstart
    obtain ⟨hrun, hhalted, hsteps⟩ := Program.run_of_isHalted hm hr hh hlimit
    exact ⟨m'.report, hrun, hhalted, hsteps, htape⟩

/-- A sum with nothing on the right, where the bar that joins is taken away again, and a
tape with two separators. -/
theorem unary_samples_do_as_described_without_right_operand :
    ∃ p p' r r' e, Catalogue.find? "unary-addition" = some (unaryAddition, p) ∧
      Catalogue.find? "find-end" = some (findEnd, p') ∧
      p.run "||+" (some 5) = .ok r ∧ r.steps.toNat = 5 ∧ r.tape.toList = ['|', '|'] ∧
      p.run "+|+" (some 5) = .error (.stuck e) ∧
      p'.run "|" (some 2) = .ok r' ∧ r'.tape.toList = ['|', '|'] := by
  obtain ⟨⟨p, hfind, hadd⟩, p', hfind', happend⟩ := unary_samples_do_as_described
  have hlength : 3 ≤ 1048576 := by decide
  have hlimit : 3 + 2 ≤ 5 := by decide
  obtain ⟨_, hsum, _⟩ := hadd "||+" (some 5) (by simp) hlength hlimit
  obtain ⟨r, hrun, _, hsteps, htape⟩ := hsum 2 0 (by simp)
  obtain ⟨_, _, hother⟩ := hadd "+|+" (some 5) (by simp) hlength hlimit
  obtain ⟨e, he⟩ := hother (by simp)
  obtain ⟨r', hrun', _, _, htape'⟩ := happend 1 (some 2) (by decide) (show 1 ≤ 1048576 by decide)
    (show 1 + 1 ≤ 2 by decide)
  exact ⟨p, p', r, r', e, hfind, hfind', hrun, hsteps, htape, he, hrun', htape'⟩

/-- A tape of one bar more than the tape limit is not loaded, so `find-end` does not halt on
every number of bars. -/
theorem tape_limit_binds_find_end :
    ¬ ∀ (n : Nat) (max : UInt64), 1 ≤ n → n + 1 ≤ max.toNat →
      ∃ p r, Catalogue.find? "find-end" = some (findEnd, p) ∧
        p.run (String.ofList (List.replicate n '|')) (some max) = .ok r ∧ r.halted = true ∧
        r.steps.toNat = n + 1 ∧ r.tape.toList = List.replicate (n + 1) '|' := by
  intro h
  obtain ⟨p, hfind, hsettings, _⟩ := exists_find?_findEnd
  obtain ⟨p', r, hfind', hrun, _⟩ := h 1048577 1048578 (by decide) (by decide)
  cases hfind.symm.trans hfind'
  have hlength := Program.length_le_of_run hrun
  rw [hsettings, String.length_ofList, List.length_replicate] at hlength
  exact absurd hlength (by decide)

end TapeMachine.Sample
