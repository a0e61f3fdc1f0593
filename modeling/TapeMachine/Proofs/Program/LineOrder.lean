import Mathlib.Data.List.Forall2
import Mathlib.Data.List.Perm.Basic
import TapeMachine.Proofs.Program.Accepted
import TapeMachine.Proofs.Rule.Reader
import TapeMachine.Proofs.Table.Refusals

/-!
# The order of lines

The lines of a rule text can stand in any order. What a text says is told by its lines that are not
blank (`Text.contents`); in another order they are read as the same rules in another order
(`Rule.exists_parse_perm`), and these make the same table (`Table.build_perm`), although a fault
that is found may be another one.
-/

namespace TapeMachine

/-! ## Lines -/

namespace Text

/-- The lines of a text that are not blank, without the white space at their ends. -/
def contents (text : List Char) : List (List Char) :=
  ((lines text).map trim).filter (· ≠ [])

theorem contents_perm {text text' : List Char} (h : (lines text').Perm (lines text)) :
    (contents text').Perm (contents text) :=
  (h.map trim).filter _

/-- The lines of a text, joined again in any order. -/
theorem contents_joined_perm {text : List Char} {ls : List (List Char)} (h : ls.Perm (lines text)) :
    (contents (['\n'].intercalate ls)).Perm (contents text) := by
  have hne : ls ≠ [] := by
    rintro rfl
    exact lines_ne_nil text h.nil_eq.symm
  have hclean : ∀ l ∈ ls, '\n' ∉ l := fun l hl =>
    newline_notMem_of_mem_lines text l (h.mem_iff.1 hl)
  refine contents_perm ?_
  rwa [isLines_iff.1 ⟨hne, hclean, rfl⟩]

theorem trim_trim (line : List Char) : trim (trim line) = trim line := by
  obtain ⟨left, right, hline, hl, hr, _⟩ := trims_trim line
  conv_rhs => rw [hline, List.append_assoc, trim_gap_append hl hr]

end Text

/-! ## Rules -/

namespace Rule

open Text

variable {s : Settings} {text text' : String} {l : List Char} {r : Rule} {rules : List Rule}

theorem isSignificant_trim : IsSignificant s (trim l) ↔ IsSignificant s l := by
  simp only [IsSignificant, trims_iff, trim_trim]

theorem reads_trim : Reads s (trim l) r ↔ Reads s l r := by
  rw [reads_iff 1, reads_iff 1, trim_trim]

theorem filter_contents (s : Settings) (text : List Char) :
    (contents text).filter (IsSignificant s ·) =
      ((lines text).filter (IsSignificant s ·)).map trim := by
  have hblank (l : List Char) : (decide (IsSignificant s l) && decide (l ≠ [])) =
      decide (IsSignificant s l) := by
    rw [Bool.eq_iff_iff, Bool.and_eq_true, decide_eq_true_iff, decide_eq_true_iff,
      and_iff_left_iff_imp]
    rintro ⟨_, htrims, hne, _⟩ rfl
    exact hne (trims_iff.1 htrims).symm
  have htrim (l : List Char) : ((fun l => decide (IsSignificant s l)) ∘ trim) l =
      decide (IsSignificant s l) := by
    simp only [Function.comp_apply, isSignificant_trim]
  rw [contents, List.filter_filter, List.filter_congr fun l _ => hblank l, List.filter_map,
    List.filter_congr fun l _ => htrim l]

theorem parse_eq_ok_iff_contents : parse s text = .ok rules ↔ text.length ≤ s.maxRulesSize.toNat ∧
    List.Forall₂ (Reads s) ((contents text.toList).filter (IsSignificant s ·)) rules := by
  simp only [parse_eq_ok_iff, filter_contents, List.forall₂_map_left_iff, reads_trim]

/-- The same lines in another order are read as the same rules in another order. -/
theorem exists_parse_perm (hlines : (contents text'.toList).Perm (contents text.toList))
    (hsize : text'.length ≤ s.maxRulesSize.toNat) (h : parse s text = .ok rules) :
    ∃ rules', parse s text' = .ok rules' ∧ rules'.Perm rules := by
  obtain ⟨rules', hreads, hperm⟩ :=
    List.perm_comp_forall₂ (hlines.filter _) (parse_eq_ok_iff_contents.1 h).2
  exact ⟨rules', parse_eq_ok_iff_contents.2 ⟨hsize, hreads⟩, hperm⟩

end Rule

/-! ## Tables -/

namespace Table

variable {t t' : Table} {rules rules' : List Rule}

theorem Unblamed.perm {max : UInt64} (hperm : rules'.Perm rules) (h : Unblamed max rules) :
    Unblamed max rules' where
  names r hr := h.names r (hperm.mem_iff.1 hr)
  places := (hperm.map Rule.place).nodup_iff.2 h.places

/-- Rules that make a table make the same table in any order. -/
theorem build_perm {s : Settings} {init halt : String} (hperm : rules'.Perm rules)
    (h : build s init halt rules = .ok t) : build s init halt rules' = .ok t := by
  obtain ⟨hadd, hcount, hinit, hhalt⟩ := build_eq_ok_iff.1 h
  obtain ⟨t', hadd'⟩ := foldlM_add_eq_ok_iff.2 ((foldlM_add_eq_ok_iff.1 ⟨t, hadd⟩).perm hperm)
  have hsame : t' = t := by
    refine ext_get? (fun state symbol => ?_) (fun state => ?_) ?_
    · apply Option.ext
      intro a
      rw [get?_of_foldlM_add hadd', get?_of_foldlM_add hadd, hperm.mem_iff]
    · rw [hasState_of_foldlM_add hadd', hasState_of_foldlM_add hadd, (hperm.map _).mem_iff]
    · rw [size_of_foldlM_add hadd', size_of_foldlM_add hadd, hperm.length_eq]
  rw [hsame] at hadd'
  exact build_eq_ok_iff.2 ⟨hadd', hcount, hinit, hperm.any_eq.trans hhalt⟩

end Table

/-! ## Programs -/

namespace Program

open Text

variable {s : Settings} {text text' : String} {p p' : Program}

theorem exists_ofText_perm (hlines : (contents text'.toList).Perm (contents text.toList))
    (hsize : text'.length ≤ s.maxRulesSize.toNat) (h : ofText s text = .ok p) :
    ∃ p', ofText s text' = .ok p' ∧ p'.settings = p.settings ∧ p'.table = p.table ∧
      p'.rules.Perm p.rules := by
  obtain ⟨hcheck, hrules, htable, hsettings⟩ := ofText_eq_ok_iff.1 h
  obtain ⟨rules', hrules', hperm⟩ := Rule.exists_parse_perm hlines hsize hrules
  have htable' := Table.build_perm hperm htable
  exact ⟨⟨s, rules', p.table⟩, ofText_eq_ok_iff.2 ⟨hcheck, hrules', htable', rfl⟩, hsettings.symm,
    rfl, hperm⟩

theorem run_congr (hsettings : p'.settings = p.settings) (htable : p'.table = p.table)
    (input : String) (max : Option UInt64) : p'.run input max = p.run input max := by
  rw [run, run, machine, machine, hsettings, htable]

/-- Two texts that are not too large and have the same lines, in whatever order, are accepted
or refused together; the lines of a text joined in another order make such a text
(`Text.contents_joined_perm`). If they are accepted, their programs have the same number of
rules and the same table, with the same actions, states and dangling targets, and do the same
on every input. Blank lines and the white space at the ends of lines, such as carriage
returns, do not count. -/
theorem line_order_is_irrelevant (hlines : (contents text'.toList).Perm (contents text.toList))
    (hsize : text.length ≤ s.maxRulesSize.toNat) (hsize' : text'.length ≤ s.maxRulesSize.toNat) :
    ((∃ p', ofText s text' = .ok p') ↔ ∃ p, ofText s text = .ok p) ∧
    ∀ p p', ofText s text = .ok p → ofText s text' = .ok p' →
      p'.rules.Perm p.rules ∧ p'.rules.length = p.rules.length ∧ p'.table = p.table ∧
      ∀ input max, p'.run input max = p.run input max := by
  refine ⟨⟨?_, ?_⟩, ?_⟩
  · rintro ⟨p', hp'⟩
    obtain ⟨p, hp, _⟩ := exists_ofText_perm hlines.symm hsize hp'
    exact ⟨p, hp⟩
  · rintro ⟨p, hp⟩
    obtain ⟨p', hp', _⟩ := exists_ofText_perm hlines hsize' hp
    exact ⟨p', hp'⟩
  · intro p p' hp hp'
    obtain ⟨_, hp₁, hsettings, htable, hperm⟩ := exists_ofText_perm hlines hsize' hp
    cases hp'.symm.trans hp₁
    exact ⟨hperm, hperm.length_eq, htable, run_congr hsettings htable⟩

/-- A rule, an empty line and a comment change places with a rule that comes after them. -/
theorem line_order_is_irrelevant_reordered :
    let text := "INIT a Q b R // go\r\n\n// none\nQ _ HALT c L"
    let ls := ["Q _ HALT c L", "// none", "", "INIT a Q b R // go\r"].map String.toList
    let text' := String.ofList (['\n'].intercalate ls)
    ∃ p p', ofText {} text = .ok p ∧ ofText {} text' = .ok p' ∧ p'.rules ≠ p.rules ∧
      p'.table = p.table ∧ p'.run "a" (some 1) = p.run "a" (some 1) := by
  intro text ls text'
  let first : Rule := ⟨"INIT", 'a', ⟨"Q", 'b', .right⟩⟩
  let second : Rule := ⟨"Q", '_', ⟨"HALT", 'c', .left⟩⟩
  -- A literal is the text of its characters, so none of them has to be decoded.
  have hperm : ls.Perm (lines text.toList) := by
    simp only [ls, text, List.map]
    repeat rw [String.toList_ofList]
    decide +kernel
  have hlines : (contents text'.toList).Perm (contents text.toList) := by
    rw [String.toList_ofList]
    exact contents_joined_perm hperm
  have hparse : Rule.parse {} text = .ok [first, second] := by
    rw [Rule.parse, ← String.length_toList, String.toList_ofList]
    decide +kernel
  have hparse' : Rule.parse {} text' = .ok [second, first] := by
    rw [Rule.parse, ← String.length_toList, String.toList_ofList]
    simp only [ls, List.map]
    repeat rw [String.toList_ofList]
    decide +kernel
  have hsize := (Rule.parse_eq_ok_iff.1 hparse).1
  have hsize' := (Rule.parse_eq_ok_iff.1 hparse').1
  obtain ⟨p, _, hp, _, _⟩ := exists_machine {} text "" (fun _ _ => true) (by decide +kernel)
  obtain ⟨hboth, hsame⟩ := line_order_is_irrelevant (s := {}) hlines hsize hsize'
  obtain ⟨p', hp'⟩ := hboth.2 ⟨p, hp⟩
  obtain ⟨_, _, htable, hrun⟩ := hsame p p' hp hp'
  have hrules : p.rules = [first, second] :=
    Except.ok.inj ((ofText_eq_ok_iff.1 hp).2.1.symm.trans hparse)
  have hrules' : p'.rules = [second, first] :=
    Except.ok.inj ((ofText_eq_ok_iff.1 hp').2.1.symm.trans hparse')
  refine ⟨p, p', hp, hp', ?_, htable, hrun "a" (some 1)⟩
  rw [hrules, hrules']
  decide

end Program

end TapeMachine
