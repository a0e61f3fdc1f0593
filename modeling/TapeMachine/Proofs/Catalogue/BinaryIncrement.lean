import Mathlib.Data.List.DropRight
import TapeMachine.Proofs.Catalogue.Entries

/-!
# The sample that adds one

The sample goes to the end of a binary numeral and comes back over its last ones, which it turns
into zeros, until it finds a zero or the blank before the numeral and writes the one there.

## Main results

- `Sample.exists_incremented`: the two passes over a numeral, with the steps they take
- `Sample.binary_increment_adds_one`: what the run of the sample reports, for every numeral
-/

namespace TapeMachine.Sample

/-! ## Binary numerals -/

theorem ofDigitChars_replicate_one (k init : Nat) :
    Nat.ofDigitChars 2 (List.replicate k '1') init + 1 = 2 ^ k * (init + 1) := by
  induction k generalizing init with
  | zero => simp
  | succ k ih =>
    have hdigit : '1'.toNat - '0'.toNat = 1 := rfl
    rw [List.replicate_succ, Nat.ofDigitChars_cons, hdigit, ih]
    ring

/-- Carried over `k` ones, a one comes to a zero or to the place before the numeral. -/
theorem ofDigitChars_carried (front : List Char) (k : Nat)
    (hfront : front = [] ∨ ∃ u, front = u ++ ['0']) :
    Nat.ofDigitChars 2 (front.dropLast ++ '1' :: List.replicate k '0') 0 =
      Nat.ofDigitChars 2 (front ++ List.replicate k '1') 0 + 1 := by
  have hone : '1'.toNat - '0'.toNat = 1 := rfl
  have hzero : '0'.toNat - '0'.toNat = 0 := rfl
  have hcarried := ofDigitChars_replicate_one k (Nat.ofDigitChars 2 front 0)
  rw [Nat.ofDigitChars_append, Nat.ofDigitChars_append, Nat.ofDigitChars_cons,
    Nat.ofDigitChars_replicate_zero, hcarried, hone]
  obtain rfl | ⟨u, rfl⟩ := hfront
  · rfl
  · rw [List.dropLast_concat, Nat.ofDigitChars_append, Nat.ofDigitChars_cons, Nat.ofDigitChars_nil,
      hzero, Nat.add_zero]

theorem toDigits_of_binary {c : Char} (h : c = '0' ∨ c = '1') :
    Nat.toDigits 2 (c.toNat - '0'.toNat) = [c] ∧ c.toNat - '0'.toNat < 2 := by
  obtain rfl | rfl := h
  · exact ⟨rfl, by decide⟩
  · exact ⟨rfl, by decide⟩

theorem leftpad_concat {α : Type} (n : Nat) (a b : α) (l : List α) :
    (l ++ [b]).leftpad (n + 1) a = l.leftpad n a ++ [b] := by
  rw [List.leftpad, List.leftpad, List.length_append, List.length_singleton, Nat.add_sub_add_right,
    List.append_assoc]

/-- A binary numeral is its value written with as many digits. -/
theorem leftpad_toDigits {digits : List Char} (hne : digits ≠ [])
    (h : ∀ c ∈ digits, c = '0' ∨ c = '1') :
    (Nat.toDigits 2 (Nat.ofDigitChars 2 digits 0)).leftpad digits.length '0' = digits := by
  induction digits using List.reverseRecOn with
  | nil => exact absurd rfl hne
  | append_singleton digits c ih =>
    obtain ⟨hdigit, hlt⟩ := toDigits_of_binary (h c (by simp))
    rw [Nat.ofDigitChars_append, Nat.ofDigitChars_cons, Nat.ofDigitChars_nil, List.length_append,
      List.length_singleton]
    by_cases hempty : digits = []
    · subst hempty
      rw [Nat.ofDigitChars_nil, Nat.mul_zero, Nat.zero_add, hdigit]
      rfl
    · have hrest := ih hempty fun d hd => h d (List.mem_append_left _ hd)
      obtain hvalue | hvalue := Nat.eq_zero_or_pos (Nat.ofDigitChars 2 digits 0)
      · -- The digits so far are zeros, and so is the padding in front of the last one.
        rw [hvalue] at hrest ⊢
        obtain ⟨n, hn⟩ := Nat.exists_eq_succ_of_ne_zero (List.length_pos_iff.2 hempty).ne'
        have hzeros : ['0'].leftpad (n + 1) '0' = [].leftpad (n + 1) '0' := by
          simp [List.leftpad, List.replicate_succ']
        rw [hn, Nat.toDigits_zero, hzeros] at hrest
        rw [hn, Nat.mul_zero, Nat.zero_add, hdigit, ← List.nil_append [c], leftpad_concat, hrest,
          List.nil_append]
      · rw [← Nat.toDigits_append_toDigits (by decide) hvalue hlt, hdigit, leftpad_concat, hrest]

/-- Where a numeral has a zero, adding one keeps its number of digits; where it has none, a
digit more is needed. -/
theorem carried_eq {front : List Char} {k : Nat} (hbinary : ∀ c ∈ front, c = '0' ∨ c = '1')
    (hfront : front = [] ∨ ∃ u, front = u ++ ['0']) :
    front.dropLast ++ '1' :: List.replicate k '0' =
      if '0' ∈ front ++ List.replicate k '1' then
        (Nat.toDigits 2 (Nat.ofDigitChars 2 (front ++ List.replicate k '1') 0 + 1)).leftpad
          (front ++ List.replicate k '1').length '0'
      else '1' :: List.replicate (front ++ List.replicate k '1').length '0' := by
  rw [← ofDigitChars_carried front k hfront]
  obtain rfl | ⟨u, rfl⟩ := hfront
  · have hno : '0' ∉ [] ++ List.replicate k '1' := by simp
    rw [if_neg hno, List.nil_append, List.length_replicate]
    rfl
  · have hdigits : ∀ c ∈ u ++ '1' :: List.replicate k '0', c = '0' ∨ c = '1' := by
      intro c hc
      rw [List.mem_append, List.mem_cons] at hc
      obtain hc | rfl | hc := hc
      · exact hbinary c (List.mem_append_left _ hc)
      · exact .inr rfl
      · exact .inl (List.eq_of_mem_replicate hc)
    have hlength : ((u ++ ['0']) ++ List.replicate k '1').length =
        (u ++ '1' :: List.replicate k '0').length := by
      simp only [List.length_append, List.length_cons, List.length_nil, List.length_replicate]
      omega
    rw [if_pos (by simp), List.dropLast_concat, hlength, leftpad_toDigits (by simp) hdigits]

/-! ## The passes over the numeral -/

/-- What the text of the sample spells. -/
def binaryIncrementRules : List Rule :=
  [⟨"INIT", '0', ⟨"INIT", '0', .right⟩⟩, ⟨"INIT", '1', ⟨"INIT", '1', .right⟩⟩,
    ⟨"INIT", '_', ⟨"CARRY", '_', .left⟩⟩, ⟨"CARRY", '1', ⟨"CARRY", '0', .left⟩⟩,
    ⟨"CARRY", '0', ⟨"HALT", '1', .left⟩⟩, ⟨"CARRY", '_', ⟨"HALT", '1', .left⟩⟩]

theorem rules_binaryIncrement :
    (Program.ofText {} binaryIncrement.rules).toOption.map (·.rules) =
      some binaryIncrementRules := by
  rw [Program.ofText, Rule.parse, ← String.length_toList]
  -- A literal is the text of its characters, so none of them has to be decoded.
  simp only [binaryIncrement, String.toList_append]
  repeat rw [String.toList_ofList]
  decide +kernel

theorem exists_find?_binaryIncrement :
    ∃ p, Catalogue.find? "binary-increment" = some (binaryIncrement, p) ∧ p.settings = {} ∧
      ∀ state symbol, p.table.get? state symbol =
        Textbook.deltaOf binaryIncrementRules state symbol := by
  have hmem : binaryIncrement ∈ Catalogue.samples := by simp [Catalogue.samples]
  exact Catalogue.exists_find?_name hmem rules_binaryIncrement

theorem ne_blank_of_binary {c : Char} (h : c = '0' ∨ c = '1') : c ≠ '_' := by
  obtain rfl | rfl := h
  · decide
  · decide

/-- To the end, back over the last ones, and one step more. -/
theorem exists_incremented {t : Table} {m : Machine} {front : List Char} {k : Nat}
    (hrules : ∀ state symbol, t.get? state symbol =
      Textbook.deltaOf binaryIncrementRules state symbol)
    (hbinary : ∀ c ∈ front, c = '0' ∨ c = '1') (hfront : front = [] ∨ ∃ u, front = u ++ ['0'])
    (h : m.Faces {} t "INIT" .right [] (front ++ List.replicate k '1')) :
    ∃ m', m.ReachesIn (front.length + k + k + 2) m' ∧ m'.isHalted = true ∧
      m'.report.tape.toList = front.dropLast ++ '1' :: List.replicate k '0' := by
  rw [← List.append_nil (front ++ _)] at h
  obtain ⟨m₁, hr₁, h₁⟩ := h.exists_pass (by decide) id fun c hc => by
    have hdigit : c = '0' ∨ c = '1' := by
      obtain hc | hc := List.mem_append.1 hc
      · exact hbinary c hc
      · exact .inr (List.eq_of_mem_replicate hc)
    rw [hrules]
    obtain rfl | rfl := hdigit <;> decide
  have hend : t.get? "INIT" '_' = some ⟨"CARRY", '_', Direction.right.opposite⟩ :=
    (hrules _ _).trans (by decide)
  obtain ⟨m₂, ha₂, h₂⟩ := h₁.exists_back (by decide) hend
  replace h₂ := Machine.Faces.behind_blank_iff.1 h₂
  have hback : ((front ++ List.replicate k '1').map id).reverse ++ [] =
      List.replicate k '1' ++ front.reverse := by
    rw [List.map_id, List.append_nil, List.reverse_append, List.reverse_replicate]
  rw [hback] at h₂
  obtain ⟨m₃, hr₃, h₃⟩ := h₂.exists_pass (by decide) (fun _ => '0') fun c hc => by
    rw [List.eq_of_mem_replicate hc]
    exact (hrules _ _).trans (by decide)
  have hlast : t.get? "CARRY" (front.reverse.headD '_') = some ⟨"HALT", '1', .left⟩ := by
    rw [hrules]
    obtain rfl | ⟨u, rfl⟩ := hfront
    · decide
    · rw [List.reverse_concat, List.headD_cons]
      decide
  obtain ⟨m₄, ha₄, h₄⟩ := h₃.exists_onward (by decide) hlast
  rw [List.map_const', List.reverse_replicate, List.append_nil, List.length_replicate,
    List.tail_reverse] at h₄
  refine ⟨m₄, ?_, h₄.isHalted_eq, ?_⟩
  · have hsteps : front.length + k + k + 2 =
        (front ++ List.replicate k '1').length + 1 + (List.replicate k '1').length + 1 := by
      rw [List.length_append, List.length_replicate]
      omega
    rw [hsteps]
    exact ((hr₁.step ha₂).trans hr₃).step ha₄
  · have hwritten : ∀ c ∈ '1' :: List.replicate k '0', c ≠ '_' := by
      refine List.forall_mem_cons.2 ⟨by decide, fun c hc => ?_⟩
      rw [List.eq_of_mem_replicate hc]
      decide
    have hkept : ∀ c ∈ front.dropLast.reverse, c ≠ '_' := fun c hc =>
      ne_blank_of_binary (hbinary c (List.dropLast_subset _ (List.mem_reverse.1 hc)))
    rw [h₄.report_left hwritten hkept, List.reverse_reverse]

/-- A binary numeral is what stands before its last ones, and these. -/
theorem exists_front {w : List Char} (hw : ∀ c ∈ w, c = '0' ∨ c = '1') :
    ∃ front, w = front ++ List.replicate (w.rtakeWhile (· = '1')).length '1' ∧
      (front = [] ∨ ∃ u, front = u ++ ['0']) := by
  have hones : w.rtakeWhile (· = '1') = List.replicate (w.rtakeWhile (· = '1')).length '1' := by
    refine List.eq_replicate_of_mem fun c hc => ?_
    have hone := List.mem_rtakeWhile_imp hc
    exact of_decide_eq_true hone
  have hsplit : w.rdropWhile (· = '1') ++ w.rtakeWhile (· = '1') = w :=
    List.rdropWhile_append_rtakeWhile
  refine ⟨w.rdropWhile (· = '1'), by rw [← hones, hsplit], ?_⟩
  obtain hempty | ⟨u, c, hlast⟩ := List.eq_nil_or_concat (w.rdropWhile (· = '1'))
  · exact .inl hempty
  · -- The symbol before the last ones is no one, and so it is a zero.
    have hne := List.rdropWhile_last_not (fun c => decide (c = '1')) w (by simp [hlast])
    have hc : c ∈ w := by
      rw [← hsplit, hlast]
      simp
    simp only [hlast, List.concat_eq_append, List.getLast_append_singleton,
      decide_eq_true_eq] at hne
    rw [hlast, (hw c hc).resolve_right hne, List.concat_eq_append]
    exact .inr ⟨u, rfl⟩

/-- The sample named `binary-increment` halts on every binary numeral that is no longer than the
tape limit, also on the empty one, with one more step than there are symbols to go over twice: the
whole numeral and its last ones. -/
theorem binary_increment_adds_one :
    ∃ p, Catalogue.find? "binary-increment" = some (binaryIncrement, p) ∧
      ∀ (w : String) (limit : Option UInt64), (∀ c ∈ w.toList, c = '0' ∨ c = '1') →
        w.length ≤ ({} : Settings).maxTapeLen.toNat →
        2 * w.length + 2 ≤ (limit.getD p.settings.maxSteps).toNat →
        let value := Nat.ofDigitChars 2 w.toList 0
        let ones := (w.toList.rtakeWhile (· = '1')).length
        ∃ r, p.run w limit = .ok r ∧ r.halted = true ∧ r.steps.toNat = w.length + ones + 2 ∧
          Nat.ofDigitChars 2 r.tape.toList 0 = value + 1 ∧
          r.tape.toList =
            if '0' ∈ w.toList then (Nat.toDigits 2 (value + 1)).leftpad w.length '0'
            else '1' :: List.replicate w.length '0' := by
  obtain ⟨p, hfind, hsettings, hrules⟩ := exists_find?_binaryIncrement
  refine ⟨p, hfind, ?_⟩
  intro w limit hw hlength hlimit value ones
  have hspace : ' ' ∉ w.toList := fun hmem => by
    obtain h | h := hw _ hmem <;> cases h
  obtain ⟨m, hm, hstart⟩ := Catalogue.exists_start hsettings hspace hlength
  obtain ⟨front, hsplit, hfront⟩ := exists_front hw
  rw [hsplit] at hstart
  have hbinary : ∀ c ∈ front, c = '0' ∨ c = '1' := fun c hc => by
    refine hw c ?_
    rw [hsplit]
    exact List.mem_append_left _ hc
  obtain ⟨m', hr, hh, htape⟩ := exists_incremented hrules hbinary hfront hstart
  have hlengths : w.length = front.length + ones := by
    rw [← String.length_toList, hsplit, List.length_append, List.length_replicate]
  have hwithin : front.length + ones + ones + 2 ≤ (limit.getD p.settings.maxSteps).toNat := by omega
  obtain ⟨hrun, hhalted, hsteps⟩ := Program.run_of_isHalted hm hr hh hwithin
  refine ⟨m'.report, hrun, hhalted, ?_, ?_, ?_⟩
  · rw [hsteps, hlengths]
  · rw [htape, ofDigitChars_carried front ones hfront, ← hsplit]
  · rw [htape, carried_eq hbinary hfront, ← hsplit, String.length_toList]

/-- A carry over three ones, with no step more than are asked for in the longest case. -/
theorem binary_increment_adds_one_with_carry :
    ∃ p r, Catalogue.find? "binary-increment" = some (binaryIncrement, p) ∧
      p.run "0111" (some 10) = .ok r ∧ r.steps.toNat = 9 ∧ r.tape.toList = "1000".toList := by
  obtain ⟨p, hfind, hruns⟩ := binary_increment_adds_one
  obtain ⟨r, hrun, _, hsteps, _, htape⟩ := hruns "0111" (some 10) (by simp)
    (show 4 ≤ 1048576 by decide) (show 2 * 4 + 2 ≤ 10 by decide)
  refine ⟨p, r, hfind, hrun, ?_, ?_⟩
  · rw [hsteps]
    decide
  · rw [htape]
    decide

end TapeMachine.Sample
