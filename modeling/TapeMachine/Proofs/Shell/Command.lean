import TapeMachine.Proofs.Text.Numeral
import TapeMachine.Proofs.Text.Words
import TapeMachine.Shell.Command

/-!
# The language of commands

A line is a command without the white space at its ends. Which text stands for which command is told
by `Command.Spells`, without the reader of lines; every other text is an unknown command
(`Command.parse_reads_language`). No two commands have the same text, since a numeral has one value
and begins with no letter, so the order in which the reader tries them does not matter.
-/

namespace TapeMachine.Shell.Command

open Text (BeginsSolid IsGap IsNumeral IsSolid Trims)

/-- The commands that texts stand for. -/
inductive Spells : List Char → Command → Prop where
  /-- Nothing is typed: one step. -/
  | next : Spells [] (step 1)
  | step {text : List Char} {n : UInt64} : IsNumeral text n.toNat → Spells text (step n)
  | back {gap numeral : List Char} {index : UInt64} : IsGap gap → IsNumeral numeral index.toNat →
      Spells ('b' :: (gap ++ numeral)) (back index)
  | reset : Spells ['r'] reset
  | quit : Spells ['q'] quit

variable {text gap numeral left right : List Char} {command : Command} {n : UInt64} {m : Nat}

/-! ## Numerals among other texts -/

theorem isSolid_of_isNumeral (h : IsNumeral numeral m) : IsSolid numeral := by
  intro c hc
  obtain rfl | hdigit := h.plus_or_isDigit c hc
  · rfl
  · have hrange := Char.isDigit_iff_toNat.1 hdigit
    simp only [Char.reduceToNat] at hrange
    simp only [Text.isWhiteSpace, Bool.or_eq_false_iff, Bool.and_eq_false_iff,
      decide_eq_false_iff_not, beq_eq_false_iff_ne]
    omega

/-- White space around a text that has none is all that is taken off. -/
theorem trims_of_isSolid (hl : IsGap left) (hr : IsGap right) (h : IsSolid text) :
    Trims (left ++ text ++ right) text := by
  refine ⟨left, right, rfl, hl, hr, ?_, ?_⟩
  · exact fun c hc => h c (List.mem_of_mem_head? hc)
  · exact fun c hc => h c (List.mem_reverse.1 (List.mem_of_mem_head? hc))

theorem trim_gap_numeral (hgap : IsGap gap) (h : IsNumeral numeral m) :
    Text.trim (gap ++ numeral) = numeral := by
  have htrims := trims_of_isSolid hgap Text.isGap_nil (isSolid_of_isNumeral h)
  rw [List.append_nil] at htrims
  exact Text.trims_iff.1 htrims

/-- A numeral begins with a plus sign or a digit, and no other command does. -/
theorem not_isNumeral_cons {c : Char} (hplus : c ≠ '+') (hdigit : ¬ c.isDigit = true)
    (rest : List Char) (m : Nat) :
    ¬ IsNumeral (c :: rest) m := by
  intro h
  obtain ⟨d, _, heq, hd⟩ := h.exists_cons
  obtain ⟨rfl, _⟩ := List.cons.inj heq
  exact hd.elim hplus hdigit

theorem parseNumeral?_cons {c : Char} (hplus : c ≠ '+') (hdigit : ¬ c.isDigit = true)
    (rest : List Char) :
    Text.parseNumeral? (c :: rest) = none := by
  rw [Option.eq_none_iff_forall_ne_some]
  intro n hn
  exact not_isNumeral_cons hplus hdigit rest n.toNat (Text.parseNumeral?_eq_some_iff.1 hn)

theorem beginsSolid_of_append (h : BeginsSolid (left ++ right)) : BeginsSolid left := by
  intro c hc
  apply h
  rw [List.head?_append, hc]
  rfl

/-- A text that ends in something else has no white space to take off its end. -/
theorem exists_gap_append_trim (h : BeginsSolid text.reverse) :
    ∃ gap, IsGap gap ∧ text = gap ++ Text.trim text := by
  obtain ⟨left, right, htext, hl, hr, _⟩ := Text.trims_trim text
  obtain rfl | ⟨front, c, rfl⟩ := List.eq_nil_or_concat right
  · exact ⟨left, hl, by rwa [List.append_nil] at htext⟩
  · rw [htext] at h
    have hsolid := h c (by simp)
    have hgap := hr c (by simp)
    rw [hsolid] at hgap
    cases hgap

/-! ## Reading -/

theorem ofText_of_parseNumeral? (h : Text.parseNumeral? text = some n) : ofText text = step n := by
  unfold ofText
  split
  · cases h
  · rw [parseNumeral?_cons (by decide) (by decide)] at h
    cases h
  · rw [parseNumeral?_cons (by decide) (by decide)] at h
    cases h
  · rw [h]

theorem ofText_back (rest : List Char) : ofText ('b' :: rest) =
    match Text.parseNumeral? (Text.trim rest) with
    | some index => back index
    | none => unknown (String.ofList ('b' :: rest)) := by
  unfold ofText
  split
  · rename_i heq
    cases heq
  · rename_i heq
    cases heq
  · rename_i heq
    cases heq
  · rw [parseNumeral?_cons (by decide) (by decide)]
    rfl

theorem Spells.ofText_eq (h : Spells text command) : ofText text = command := by
  cases h with
  | next => rfl
  | step h => exact ofText_of_parseNumeral? (Text.parseNumeral?_eq_some_iff.2 h)
  | back hgap h => rw [ofText_back, trim_gap_numeral hgap h, Text.parseNumeral?_eq_some_iff.2 h]
  | reset => rfl
  | quit => rfl

/-- What is read is what the text stands for, or else the text is unknown. -/
theorem spells_or_unknown (hend : BeginsSolid text.reverse) :
    Spells text (ofText text) ∨ ofText text = unknown (String.ofList text) := by
  cases hnumeral : Text.parseNumeral? text with
  | some n =>
    rw [ofText_of_parseNumeral? hnumeral]
    exact .inl (.step (Text.parseNumeral?_eq_some_iff.1 hnumeral))
  | none =>
    unfold ofText
    split
    · exact .inl .next
    · exact .inl .quit
    · exact .inl .reset
    · rw [hnumeral]
      dsimp only
      split
      · rename_i rest _ _ _
        cases hindex : Text.parseNumeral? (Text.trim rest) with
        | none => exact .inr rfl
        | some index =>
          rw [List.reverse_cons] at hend
          obtain ⟨gap, hgap, hsplit⟩ := exists_gap_append_trim (beginsSolid_of_append hend)
          have hspells := Spells.back hgap (Text.parseNumeral?_eq_some_iff.1 hindex)
          rw [← hsplit] at hspells
          exact .inl hspells
      · exact .inr rfl

theorem ofText_eq_unknown_iff (hend : BeginsSolid text.reverse) {t : String} :
    ofText text = unknown t ↔ t = String.ofList text ∧ ∀ command, ¬ Spells text command := by
  constructor
  · intro h
    obtain hspells | hunknown := spells_or_unknown hend
    · rw [h] at hspells
      cases hspells
    · refine ⟨Command.unknown.inj (h.symm.trans hunknown), fun command hspells => ?_⟩
      rw [hspells.ofText_eq] at h
      cases h
      cases hspells
  · rintro ⟨rfl, hnone⟩
    exact (spells_or_unknown hend).resolve_left (hnone _)

theorem ofText_eq_iff_spells (hend : BeginsSolid text.reverse) (h : ∀ t, command ≠ unknown t) :
    ofText text = command ↔ Spells text command := by
  constructor
  · rintro rfl
    exact (spells_or_unknown hend).resolve_right (h _)
  · exact Spells.ofText_eq

/-! ## What stands for a command -/

theorem spells_step_iff : Spells text (step n) ↔ text = [] ∧ n = 1 ∨ IsNumeral text n.toNat := by
  constructor
  · rintro (_ | h)
    · exact .inl ⟨rfl, rfl⟩
    · exact .inr h
  · rintro (⟨rfl, rfl⟩ | h)
    · exact .next
    · exact .step h

theorem spells_back_iff : Spells text (back n) ↔
    ∃ gap numeral, text = 'b' :: (gap ++ numeral) ∧ IsGap gap ∧ IsNumeral numeral n.toNat := by
  constructor
  · rintro ⟨⟩
    rename_i gap numeral hgap h
    exact ⟨gap, numeral, rfl, hgap, h⟩
  · rintro ⟨gap, numeral, rfl, hgap, h⟩
    exact .back hgap h

theorem spells_reset_iff : Spells text reset ↔ text = ['r'] := by
  constructor
  · rintro ⟨⟩
    rfl
  · rintro rfl
    exact .reset

theorem spells_quit_iff : Spells text quit ↔ text = ['q'] := by
  constructor
  · rintro ⟨⟩
    rfl
  · rintro rfl
    exact .quit

/-- A numeral stands for that many steps, if it stands for anything. -/
theorem exists_step_of_isNumeral (hm : IsNumeral text m) (h : Spells text command) :
    ∃ n : UInt64, n.toNat = m ∧ command = step n := by
  cases h with
  | next =>
    obtain ⟨_, _, heq, _⟩ := hm.exists_cons
    cases heq
  | step h => exact ⟨_, h.unique hm, rfl⟩
  | back _ _ => exact absurd hm (not_isNumeral_cons (by decide) (by decide) _ m)
  | reset => exact absurd hm (not_isNumeral_cons (by decide) (by decide) _ m)
  | quit => exact absurd hm (not_isNumeral_cons (by decide) (by decide) _ m)

theorem exists_back_of_isNumeral (hgap : IsGap gap) (hm : IsNumeral numeral m)
    (htext : text = 'b' :: (gap ++ numeral))
    (h : Spells text command) : ∃ n : UInt64, n.toNat = m ∧ command = back n := by
  cases h with
  | next => cases htext
  | step h =>
    rw [htext] at h
    exact absurd h (not_isNumeral_cons (by decide) (by decide) _ _)
  | @back gap' numeral' index hgap' h =>
    -- Both numerals are what is left of the text behind the letter.
    obtain rfl : numeral' = numeral := by
      rw [← trim_gap_numeral hgap hm, ← (List.cons.inj htext).2, trim_gap_numeral hgap' h]
    exact ⟨index, h.unique hm, rfl⟩
  | reset =>
    cases (List.cons.inj htext).1
  | quit =>
    cases (List.cons.inj htext).1

/-- A number that is no word is too large for either command. -/
theorem not_spells_of_size_le (hm : UInt64.size ≤ m)
    (h : IsNumeral text m ∨
      ∃ gap numeral, text = 'b' :: (gap ++ numeral) ∧ IsGap gap ∧ IsNumeral numeral m) :
    ¬ Spells text command := by
  intro hspells
  have hword : ∃ n : UInt64, n.toNat = m := by
    obtain h | ⟨gap, numeral, htext, hgap, h⟩ := h
    · obtain ⟨n, hn, _⟩ := exists_step_of_isNumeral h hspells
      exact ⟨n, hn⟩
    · obtain ⟨n, hn, _⟩ := exists_back_of_isNumeral hgap h htext hspells
      exact ⟨n, hn⟩
  obtain ⟨n, rfl⟩ := hword
  exact Nat.not_lt.2 hm n.toNat_lt_size

/-! ## Lines -/

/-- The text of a command has no white space at its ends. -/
theorem Spells.trims (h : Spells text command) (hl : IsGap left) (hr : IsGap right) :
    Trims (left ++ text ++ right) text := by
  cases h with
  | next => exact trims_of_isSolid hl hr (List.forall_mem_nil _)
  | step h => exact trims_of_isSolid hl hr (isSolid_of_isNumeral h)
  | @back gap numeral _ _ h =>
    -- The text begins with a letter and ends like its numeral.
    obtain ⟨c, rest, hcons, _⟩ := h.exists_cons
    have hsolid := isSolid_of_isNumeral h
    have hne : numeral.reverse ≠ [] := by simp [hcons]
    refine ⟨left, right, rfl, hl, hr, ?_, ?_⟩
    · intro d hd
      obtain rfl : 'b' = d := Option.some.inj hd
      rfl
    · rw [List.reverse_cons, List.reverse_append, List.append_assoc]
      exact Text.beginsSolid_append hne (fun d hd => hsolid d (List.mem_reverse.1 hd)) _
  | reset => exact trims_of_isSolid hl hr (Text.isSolid_cons.2 ⟨rfl, List.forall_mem_nil _⟩)
  | quit => exact trims_of_isSolid hl hr (Text.isSolid_cons.2 ⟨rfl, List.forall_mem_nil _⟩)

/-- A command can have any white space around it. -/
theorem Spells.parse_eq {line : String} (h : Spells text command) (hl : IsGap left)
    (hr : IsGap right)
    (hline : line.toList = left ++ text ++ right) : parse line = command := by
  rw [parse, hline, Text.trims_iff.1 (h.trims hl hr), h.ofText_eq]

theorem isNumeral_toString (n : Nat) : IsNumeral (toString n).toList n := by
  have htext : (toString n).toList = Nat.toDigits 10 n := Nat.toList_repr
  rw [htext]
  exact Text.isNumeral_toDigits n

/-- A line is read without the white space at its ends. What is left is nothing, for one step; a
numeral, for so many steps; `b` and a numeral with any white space between them, to go back; `r` or
`q`. Every other text is unknown, and so are both kinds of numerals where the number is no word. So
the decimal text of a word is read as that many steps, and behind a `b` as the place to go back to,
whatever white space is around it. -/
theorem parse_reads_language :
    (∀ line : String, ∃ s, Trims line.toList s ∧
      (∀ n, parse line = step n ↔ s = [] ∧ n = 1 ∨ IsNumeral s n.toNat) ∧
      (∀ index, parse line = back index ↔
        ∃ gap numeral, s = 'b' :: (gap ++ numeral) ∧ IsGap gap ∧ IsNumeral numeral index.toNat) ∧
      (parse line = reset ↔ s = ['r']) ∧
      (parse line = quit ↔ s = ['q']) ∧
      (∀ t, parse line = unknown t ↔ t = String.ofList s ∧ ∀ command, ¬ Spells s command) ∧
      ∀ m, UInt64.size ≤ m → (IsNumeral s m ∨
          ∃ gap numeral, s = 'b' :: (gap ++ numeral) ∧ IsGap gap ∧ IsNumeral numeral m) →
        parse line = unknown (String.ofList s)) ∧
    ∀ (n : UInt64) (left gap right : String), IsGap left.toList → IsGap gap.toList →
      IsGap right.toList →
      parse (left ++ toString n ++ right) = step n ∧
      parse (left ++ ("b" ++ gap ++ toString n) ++ right) = back n := by
  refine ⟨fun line => ?_, fun n left gap right hl hgap hr => ⟨?_, ?_⟩⟩
  · obtain ⟨_, _, _, _, _, _, hend⟩ := Text.trims_trim line.toList
    refine ⟨Text.trim line.toList, Text.trims_trim line.toList, ?_, ?_, ?_, ?_, ?_, ?_⟩
    · intro n
      rw [parse, ofText_eq_iff_spells hend (by simp), spells_step_iff]
    · intro index
      rw [parse, ofText_eq_iff_spells hend (by simp), spells_back_iff]
    · rw [parse, ofText_eq_iff_spells hend (by simp), spells_reset_iff]
    · rw [parse, ofText_eq_iff_spells hend (by simp), spells_quit_iff]
    · exact fun t => ofText_eq_unknown_iff hend
    · exact fun m hm h => (ofText_eq_unknown_iff hend).2 ⟨rfl, fun _ => not_spells_of_size_le hm h⟩
  · refine (Spells.step (isNumeral_toString n.toNat)).parse_eq hl hr ?_
    rw [String.toList_append, String.toList_append]
    rfl
  · refine (Spells.back hgap (isNumeral_toString n.toNat)).parse_eq hl hr ?_
    rw [String.toList_append, String.toList_append, String.toList_append, String.toList_append]
    rfl

/-- The greatest word behind the letter and a wide space, and the number after it, which is no
word. -/
theorem parse_reads_language_up_to_greatest :
    IsGap " \t".toList ∧ IsGap "\u2003".toList ∧ IsGap "\r\n".toList ∧
      parse (" \t" ++ ("b" ++ "\u2003" ++ toString (18446744073709551615 : UInt64)) ++ "\r\n") =
        back 18446744073709551615 ∧
      IsNumeral (toString UInt64.size).toList UInt64.size ∧
      parse (toString UInt64.size) = unknown (toString UInt64.size) := by
  have hleft : IsGap " \t".toList := by simp [IsGap, Text.isWhiteSpace]
  have hgap : IsGap "\u2003".toList := by simp [IsGap, Text.isWhiteSpace]
  have hright : IsGap "\r\n".toList := by simp [IsGap, Text.isWhiteSpace]
  have hnumeral := isNumeral_toString UInt64.size
  obtain ⟨hlines, hcounts⟩ := parse_reads_language
  refine ⟨hleft, hgap, hright, (hcounts _ " \t" "\u2003" "\r\n" hleft hgap hright).2, hnumeral, ?_⟩
  obtain ⟨s, htrims, _, _, _, _, _, hlarge⟩ := hlines (toString UInt64.size)
  obtain rfl : (toString UInt64.size).toList = s := by
    rw [← Text.trims_iff.1 htrims]
    exact (trim_gap_numeral Text.isGap_nil hnumeral).symm
  rw [hlarge _ (Nat.le_refl _) (.inl hnumeral), String.ofList_toList]

end TapeMachine.Shell.Command
