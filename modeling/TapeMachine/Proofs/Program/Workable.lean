import TapeMachine.Proofs.Program.Accepted
import TapeMachine.Proofs.Rule.RoundTrip
import TapeMachine.Proofs.Table.Refusals

/-!
# Settings that can describe a machine

`Settings.check` looks at each field by itself, and settings that pass it may still refuse every
rule text: a reserved name can be too long, can hold the comment mark, or can leave no room for a
rule. What has to be added is that both reserved names and one of the markers fit together
(`Settings.Fits`). Then a text of one line is accepted.
-/

namespace TapeMachine

/-- A rule from the initial state to the halt state, with this move, fits in the limits, and no
comment begins in its names or its marker. -/
structure Settings.Fits (s : Settings) (d : Direction) : Prop where
  initState : s.initState.length ≤ s.maxStateLen.toNat
  haltState : s.haltState.length ≤ s.maxStateLen.toNat
  size : s.initState.length + s.haltState.length + (s.marker d).length + 6 ≤ s.maxRulesSize.toNat
  uncommented : ∀ name ∈ [s.initState, s.haltState, s.marker d],
    ¬ s.commentMark.toList <:+: name.toList

namespace Rule

open Text

variable {s : Settings} {r first last : Rule} {rules : List Rule}

theorem length_joined_wordsOf (g : Char) (s : Settings) (r : Rule) :
    ([g].intercalate (wordsOf s r)).length =
      r.state.length + r.action.newState.length + (s.marker r.action.direction).length + 6 := by
  have hjoined := length_joined g (List.cons_ne_nil _ _ : wordsOf s r ≠ [])
  simp only [wordsOf, List.map_cons, List.map_nil, List.sum_cons, List.sum_nil,
    String.length_toList, List.length_singleton] at hjoined ⊢
  omega

theorem length_lineOf (s : Settings) (r : Rule) : (lineOf s r).length =
    r.state.length + r.action.newState.length + (s.marker r.action.direction).length + 6 := by
  rw [lineOf_eq_joined, length_joined_wordsOf]

theorem add_le_sum_map {f : Rule → ℕ} (hfirst : first ∈ rules) (hlast : last ∈ rules)
    (hne : last ≠ first) : f first + f last ≤ (rules.map f).sum := by
  obtain ⟨pre, post, rfl⟩ := List.append_of_mem hfirst
  have hother : last ∈ pre ++ post := by simpa [hne] using hlast
  have hle := List.le_sum_of_mem (List.mem_map_of_mem (f := f) hother)
  simp only [List.map_append, List.map_cons, List.sum_append, List.sum_cons] at hle ⊢
  omega

/-- A text has room for the state of one of its rules and the new state of another. -/
theorem length_add_le_renderAll (hfirst : first ∈ rules) (hlast : last ∈ rules) :
    first.state.length + last.action.newState.length +
        (s.marker first.action.direction).length + 6 ≤
      (renderAll s rules).length := by
  let size := fun r => (lineOf s r).length + 1
  have hlength : (renderAll s rules).length + 1 = (rules.map size).sum :=
    length_renderAll (List.ne_nil_of_mem hfirst)
  have hsize (r : Rule) : size r = _ + 1 := congrArg (· + 1) (length_lineOf s r)
  -- One rule may do for both, and then its line has room for both names.
  by_cases hsame : last = first
  · have hle := List.le_sum_of_mem (List.mem_map_of_mem (f := size) hfirst)
    rw [hsize] at hle
    rw [hsame]
    omega
  · have hle := add_le_sum_map (f := size) hfirst hlast hsame
    rw [hsize, hsize] at hle
    omega

end Rule

namespace Program

open Text

variable {s : Settings} {d : Direction}

/-! ## What an accepted text shows -/

theorem exists_fits_of_ofText {text : String} {p : Program} (h : ofText s text = .ok p) :
    ∃ d, s.Fits d := by
  obtain ⟨hcheck, hrules, htable, _⟩ := ofText_eq_ok_iff.1 h
  have hmark := (Settings.check_eq_ok_iff.1 hcheck).commentMark_ne_nil
  obtain ⟨hadd, _, hhasInit, hhasHalt⟩ := Table.build_eq_ok_iff.1 htable
  have hnames := (Table.foldlM_add_eq_ok_iff.1 ⟨_, hadd⟩).names
  rw [Table.hasState_of_foldlM_add hadd] at hhasInit
  obtain ⟨first, hfirst, hinit⟩ := List.mem_map.1 hhasInit
  obtain ⟨last, hlast, hhalt⟩ : ∃ r ∈ p.rules, r.action.newState = s.haltState := by
    simpa using hhasHalt
  obtain ⟨htext, hreads⟩ := Rule.parse_eq_ok_iff.1 hrules
  have hclean (r : Rule) (hr : r ∈ p.rules) :
      ∀ w ∈ Rule.wordsOf s r, ¬ s.commentMark.toList <:+: w := by
    obtain ⟨l, hl⟩ := Rule.exists_line_of_forall₂ hreads r hr
    exact hl.uncommented hmark
  have hroom := Rule.length_add_le_renderAll (s := s) hfirst hlast
  have hsize := Rule.length_renderAll_le hrules
  -- The rule that leads to the halt state can have the other move.
  refine ⟨first.action.direction, ?_, ?_, ?_, ?_⟩
  · rw [← hinit]
    exact (hnames first hfirst).1
  · rw [← hhalt]
    exact (hnames last hlast).2
  · rw [← hinit, ← hhalt]
    omega
  · have hfirstClean := hclean first hfirst
    have hlastClean := hclean last hlast
    simp only [Rule.wordsOf, List.forall_mem_cons, hinit, hhalt] at hfirstClean hlastClean ⊢
    exact ⟨hfirstClean.1, hlastClean.2.2.1, hfirstClean.2.2.2.2.1, by simp⟩

/-! ## The shortest text -/

/-- One of two symbols is not the comment mark. -/
theorem exists_symbol_not_infix {mark : List Char} (hne : mark ≠ []) :
    ∃ c, isWhiteSpace c = false ∧ ¬ mark <:+: [c] := by
  obtain ⟨c, rest, rfl⟩ := List.exists_cons_of_ne_nil hne
  by_cases hc : c = 'a'
  · refine ⟨'b', by decide, fun h => ?_⟩
    have hmem : c ∈ ['b'] := h.subset List.mem_cons_self
    simp [hc] at hmem
  · refine ⟨'a', by decide, fun h => ?_⟩
    have hmem : c ∈ ['a'] := h.subset List.mem_cons_self
    simp [hc] at hmem

theorem exists_parse_singleton {r : Rule} (hs : s.Consistent)
    (hwords : ∀ w ∈ Rule.wordsOf s r, IsWord w)
    (hclean : ∀ w ∈ Rule.wordsOf s r, ¬ s.commentMark.toList <:+: w)
    (hsize : (Rule.lineOf s r).length ≤ s.maxRulesSize.toNat) :
    ∃ text, Rule.parse s text = .ok [r] := by
  obtain ⟨g, hg, hnewline, hmark⟩ := exists_gap_not_infix_joined hs.commentMark_ne_nil hwords hclean
  let line := [g].intercalate (Rule.wordsOf s r)
  obtain ⟨hsignificant, hreads⟩ := Rule.reads_joined hs hg hwords hmark
  have hlines : lines (String.ofList line).toList = [line] := by
    rw [String.toList_ofList]
    exact lines_of_notMem (notMem_joined hnewline.symm (by decide) hwords)
  refine ⟨String.ofList line, Rule.parse_eq_ok_iff.2 ⟨?_, ?_⟩⟩
  · rw [String.length_ofList, Rule.length_joined_wordsOf, ← Rule.length_lineOf]
    exact hsize
  · rw [hlines, List.filter_cons_of_pos (by simpa using hsignificant)]
    exact .cons hreads .nil

theorem exists_build_singleton {r : Rule} (hs : s.Consistent)
    (hnames : Table.HasShortNames s.maxStateLen r) :
    ∃ t, Table.build s r.state r.action.newState [r] = .ok t := by
  have hstates : 1 ≤ s.maxStates.toNat := by
    have hne := hs.limits.1
    rw [Ne, ← UInt64.toNat_inj] at hne
    exact Nat.one_le_iff_ne_zero.2 hne
  have hunblamed : Table.Unblamed s.maxStateLen [r] := ⟨by simpa using hnames, by simp⟩
  obtain ⟨t, hadd⟩ := Table.foldlM_add_eq_ok_iff.2 hunblamed
  refine ⟨t, Table.build_eq_ok_iff.2 ⟨hadd, ?_, ?_, by simp⟩⟩
  · simpa [Table.stateCount_of_foldlM_add hadd] using hstates
  · simp [Table.hasState_of_foldlM_add hadd]

theorem exists_ofText_of_fits (hs : s.Consistent) (hfits : s.Fits d) :
    ∃ text p, ofText s text = .ok p := by
  obtain ⟨c, hc, hcmark⟩ := exists_symbol_not_infix hs.commentMark_ne_nil
  let r : Rule := ⟨s.initState, c, ⟨s.haltState, c, d⟩⟩
  have hwords : ∀ w ∈ Rule.wordsOf s r, IsWord w := by
    simp only [Rule.wordsOf, List.forall_mem_cons]
    exact ⟨hs.initState, isWord_singleton hc, hs.haltState, isWord_singleton hc,
      Rule.isWord_marker hs d, by simp⟩
  have hclean : ∀ w ∈ Rule.wordsOf s r, ¬ s.commentMark.toList <:+: w := by
    have huncommented := hfits.uncommented
    simp only [Rule.wordsOf, List.forall_mem_cons] at huncommented ⊢
    exact ⟨huncommented.1, hcmark, huncommented.2.1, hcmark, huncommented.2.2.1, by simp⟩
  have hsize : (Rule.lineOf s r).length ≤ s.maxRulesSize.toNat := by
    rw [Rule.length_lineOf]
    exact hfits.size
  obtain ⟨text, hparse⟩ := exists_parse_singleton hs hwords hclean hsize
  obtain ⟨t, ht⟩ := exists_build_singleton (r := r) hs ⟨hfits.initState, hfits.haltState⟩
  exact ⟨text, ⟨s, [r], t⟩, ofText_eq_ok_iff.2 ⟨Settings.check_eq_ok_iff.2 hs, hparse, ht, rfl⟩⟩

/-- Some rule text is accepted just if the settings pass their check and, for one of the moves, the
reserved names and the marker fit the limits and the comment mark. -/
theorem exists_program_iff (s : Settings) :
    (∃ text p, ofText s text = .ok p) ↔ s.check = .ok () ∧ ∃ d, s.Fits d := by
  constructor
  · rintro ⟨text, p, h⟩
    exact ⟨(ofText_eq_ok_iff.1 h).1, exists_fits_of_ofText h⟩
  · rintro ⟨hcheck, d, hfits⟩
    exact exists_ofText_of_fits (Settings.check_eq_ok_iff.1 hcheck) hfits

/-- Settings that pass their check although the default names are too long, no text is long enough
for a rule, or the name of the initial state opens a comment. -/
theorem check_passes_without_program :
    let short : Settings := { maxStateLen := 3 }
    let small : Settings := { maxRulesSize := 1 }
    let marked : Settings := { commentMark := "IN" }
    (short.check = .ok () ∧ ¬ ∃ text p, ofText short text = .ok p) ∧
    (small.check = .ok () ∧ ¬ ∃ text p, ofText small text = .ok p) ∧
    (marked.check = .ok () ∧ ¬ ∃ text p, ofText marked text = .ok p) := by
  intro short small marked
  refine ⟨⟨by decide +kernel, ?_⟩, ⟨by decide +kernel, ?_⟩, ⟨by decide +kernel, ?_⟩⟩
  · rintro ⟨text, p, h⟩
    obtain ⟨d, hfits⟩ := exists_fits_of_ofText h
    exact absurd hfits.initState (by decide)
  · rintro ⟨text, p, h⟩
    obtain ⟨d, hfits⟩ := exists_fits_of_ofText h
    have hsize := hfits.size
    have hmax : small.maxRulesSize.toNat = 1 := by decide
    omega
  · rintro ⟨text, p, h⟩
    obtain ⟨d, hfits⟩ := exists_fits_of_ofText h
    exact hfits.uncommented marked.initState List.mem_cons_self (by decide +kernel)

end Program

end TapeMachine
