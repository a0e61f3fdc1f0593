import Mathlib.Data.List.TakeWhile
import TapeMachine.Text.WhiteSpace

/-!
# Trimmed texts and words

What `Text.trim` and `Text.words` give, said without them: `Text.Trims` relates a line to what is
left of it without the white space at its ends, and `Text.MaximalRuns` relates a text to its maximal
runs of other characters. Both relations are functions, and these are the functions.
-/

namespace TapeMachine.Text

/-- Nothing but white space. -/
def IsGap (text : List Char) : Prop :=
  ∀ c ∈ text, isWhiteSpace c = true

/-- No white space. -/
def IsSolid (text : List Char) : Prop :=
  ∀ c ∈ text, isWhiteSpace c = false

/-- At least one character, and no white space. -/
def IsWord (text : List Char) : Prop :=
  text ≠ [] ∧ IsSolid text

/-- The text is empty or begins with white space. -/
def BeginsWithGap (text : List Char) : Prop :=
  ∀ c ∈ text.head?, isWhiteSpace c = true

/-- The text is empty or begins with something else. -/
def BeginsSolid (text : List Char) : Prop :=
  ∀ c ∈ text.head?, isWhiteSpace c = false

/-- `content` is `line` without the white space at its ends. -/
def Trims (line content : List Char) : Prop :=
  ∃ left right, line = left ++ content ++ right ∧ IsGap left ∧ IsGap right ∧
    BeginsSolid content ∧ BeginsSolid content.reverse

/-- The maximal runs of characters that are not white space, in order. -/
inductive MaximalRuns : List Char → List (List Char) → Prop where
  | nil {gap : List Char} : IsGap gap → MaximalRuns gap []
  | cons {gap word rest : List Char} {words : List (List Char)} : IsGap gap → word ≠ [] →
      IsSolid word → BeginsWithGap rest → MaximalRuns rest words →
      MaximalRuns (gap ++ (word ++ rest)) (word :: words)

theorem isGap_nil : IsGap [] :=
  fun c hc => by cases hc

theorem isGap_cons {c : Char} {text : List Char} :
    IsGap (c :: text) ↔ isWhiteSpace c = true ∧ IsGap text :=
  List.forall_mem_cons

theorem isSolid_cons {c : Char} {text : List Char} :
    IsSolid (c :: text) ↔ isWhiteSpace c = false ∧ IsSolid text :=
  List.forall_mem_cons

theorem IsWord.newline_notMem {text : List Char} (h : IsWord text) : '\n' ∉ text := by
  intro hmem
  cases h.2 '\n' hmem

theorem IsGap.beginsWithGap {text : List Char} (h : IsGap text) : BeginsWithGap text :=
  fun c hc => h c (List.mem_of_mem_head? hc)

theorem beginsSolid_append {w : List Char} (hne : w ≠ []) (hw : IsSolid w) (rest : List Char) :
    BeginsSolid (w ++ rest) := by
  cases w with
  | nil => exact absurd rfl hne
  | cons d w =>
    intro c hc
    obtain rfl : d = c := by simpa using hc
    exact (isSolid_cons.1 hw).1

/-! ## Trimming -/

theorem dropWhile_gap_append {gap rest : List Char} (hg : IsGap gap) (hr : BeginsSolid rest) :
    (gap ++ rest).dropWhile isWhiteSpace = rest := by
  induction gap with
  | nil =>
    cases rest with
    | nil => rfl
    | cons c rest => rw [List.nil_append, List.dropWhile_cons_of_neg (by simp [hr c rfl])]
  | cons c gap ih =>
    obtain ⟨hc, hg⟩ := isGap_cons.1 hg
    rw [List.cons_append, List.dropWhile_cons_of_pos hc, ih hg]

theorem beginsSolid_dropWhile (text : List Char) : BeginsSolid (text.dropWhile isWhiteSpace) := by
  intro c hc
  have hnot := List.head?_dropWhile_not isWhiteSpace text
  rw [hc] at hnot
  simpa using hnot

theorem isGap_takeWhile (text : List Char) : IsGap (text.takeWhile isWhiteSpace) :=
  fun _ hc => List.mem_takeWhile_imp hc

theorem trims_trim (line : List Char) : Trims line (trim line) := by
  let inner := line.dropWhile isWhiteSpace
  have hline : line = line.takeWhile isWhiteSpace ++ inner := List.takeWhile_append_dropWhile.symm
  have hinner : inner = trim line ++ (inner.reverse.takeWhile isWhiteSpace).reverse := by
    rw [trim, ← List.reverse_append, List.takeWhile_append_dropWhile, List.reverse_reverse]
  refine ⟨line.takeWhile isWhiteSpace, (inner.reverse.takeWhile isWhiteSpace).reverse, ?_,
    isGap_takeWhile line, ?_, ?_, ?_⟩
  · rw [List.append_assoc, ← hinner]
    exact hline
  · intro c hc
    exact isGap_takeWhile _ c (List.mem_reverse.1 hc)
  · -- What is left of the line begins like the line without the white space in front.
    intro c hc
    apply beginsSolid_dropWhile line c
    show c ∈ inner.head?
    rw [hinner]
    cases ht : trim line with
    | nil => simp [ht] at hc
    | cons d rest => simpa [ht] using hc
  · rw [trim, List.reverse_reverse]
    exact beginsSolid_dropWhile _

theorem trims_iff {line content : List Char} : Trims line content ↔ trim line = content := by
  constructor
  · rintro ⟨left, right, rfl, hl, hr, hbegin, hend⟩
    rw [trim, List.append_assoc]
    cases content with
    | nil =>
      have hall : ((left ++ ([] ++ right)).dropWhile isWhiteSpace) = [] := by
        have hgap : IsGap (left ++ right) := List.forall_mem_append.2 ⟨hl, hr⟩
        have hnil : BeginsSolid [] := fun c hc => by cases hc
        simpa using dropWhile_gap_append hgap hnil
      rw [hall]
      rfl
    | cons c rest =>
      have hgap : IsGap right.reverse := fun d hd => hr d (List.mem_reverse.1 hd)
      rw [dropWhile_gap_append hl (fun d hd => hbegin d (by simpa using hd)), List.reverse_append,
        dropWhile_gap_append hgap hend, List.reverse_reverse]
  · rintro rfl
    exact trims_trim line

theorem trim_eq_nil_iff {text : List Char} : trim text = [] ↔ IsGap text := by
  have hnil : BeginsSolid [] := fun c hc => by cases hc
  constructor
  · intro h
    obtain ⟨left, right, htext, hl, hr, _⟩ := trims_trim text
    rw [h, List.append_nil] at htext
    rw [htext]
    exact List.forall_mem_append.2 ⟨hl, hr⟩
  · intro hgap
    exact trims_iff.1 ⟨text, [], by simp, hgap, isGap_nil, hnil, hnil⟩

theorem trim_gap_append {left right : List Char} (hl : IsGap left) (hr : IsGap right)
    (text : List Char) : trim (left ++ (text ++ right)) = trim text := by
  obtain ⟨left', right', htext, hl', hr', hbegin, hend⟩ := trims_trim text
  refine trims_iff.1 ⟨left ++ left', right' ++ right, ?_, List.forall_mem_append.2 ⟨hl, hl'⟩,
    List.forall_mem_append.2 ⟨hr', hr⟩, hbegin, hend⟩
  calc left ++ (text ++ right)
      = left ++ (left' ++ trim text ++ right' ++ right) := by rw [← htext]
    _ = left ++ left' ++ trim text ++ (right' ++ right) := by simp only [List.append_assoc]

/-- Trimming takes nothing off a text only if there is nothing to take off. -/
theorem trim_eq_self_of_prefix {text : List Char} (h : text <+: trim text) : trim text = text := by
  obtain ⟨left, right, htext, _⟩ := trims_trim text
  refine (h.eq_of_length (Nat.le_antisymm h.length_le ?_)).symm
  have hlength := congrArg List.length htext
  simp only [List.length_append] at hlength
  omega

/-! ## Words -/

theorem words_gap_append {gap : List Char} (hg : IsGap gap) (rest : List Char) :
    words (gap ++ rest) = words rest := by
  induction gap with
  | nil => rfl
  | cons c gap ih =>
    obtain ⟨hc, hg⟩ := isGap_cons.1 hg
    rw [← ih hg]
    simp [words, splitWord, hc, consWord]

theorem foldr_splitWord {word : List Char} (hw : IsSolid word)
    (split : List Char × List (List Char)) :
    word.foldr splitWord split = (word ++ split.1, split.2) := by
  induction word with
  | nil => rfl
  | cons c word ih =>
    obtain ⟨hc, hw⟩ := isSolid_cons.1 hw
    rw [List.foldr_cons, ih hw, splitWord, if_neg (by simp [hc]), List.cons_append]

theorem words_solid_append {word rest : List Char} (hne : word ≠ []) (hw : IsSolid word)
    (hr : BeginsWithGap rest) : words (word ++ rest) = word :: words rest := by
  have hfirst : (rest.foldr splitWord ([], [])).1 = [] := by
    cases rest with
    | nil => rfl
    | cons c rest => rw [List.foldr_cons, splitWord, if_pos (hr c rfl)]
  simp only [words, List.foldr_append, foldr_splitWord hw, hfirst, List.append_nil, consWord,
    List.isEmpty_iff, hne, if_false, if_true]

theorem words_of_maximalRuns {text : List Char} {ws : List (List Char)} (h : MaximalRuns text ws) :
    words text = ws := by
  induction h with
  | @nil gap hg =>
    rw [← List.append_nil gap, words_gap_append hg]
    rfl
  | cons hg hne hw hr _ ih => rw [words_gap_append hg, words_solid_append hne hw hr, ih]

/-- Every text has maximal runs: one more character in front belongs to the first gap, begins the
first word, or is a word of its own. -/
theorem exists_maximalRuns (text : List Char) : ∃ ws, MaximalRuns text ws := by
  induction text with
  | nil => exact ⟨[], .nil fun c hc => by cases hc⟩
  | cons c text ih =>
    obtain ⟨ws, h⟩ := ih
    cases hc : isWhiteSpace c with
    | true =>
      cases h with
      | nil hg => exact ⟨[], .nil (isGap_cons.2 ⟨hc, hg⟩)⟩
      | cons hg hne hw hr hrest =>
        exact ⟨_, MaximalRuns.cons (isGap_cons.2 ⟨hc, hg⟩) hne hw hr hrest⟩
    | false =>
      have hword : IsSolid [c] := isSolid_cons.2 ⟨hc, fun d hd => by cases hd⟩
      have halone (hgap : BeginsWithGap text) : MaximalRuns (c :: text) ([c] :: ws) :=
        .cons isGap_nil (List.cons_ne_nil c []) hword hgap h
      cases h with
      | nil hg => exact ⟨_, halone hg.beginsWithGap⟩
      | @cons gap word rest ws hg hne hw hr hrest =>
        cases gap with
        | nil =>
          exact ⟨_, .cons isGap_nil (List.cons_ne_nil c word) (isSolid_cons.2 ⟨hc, hw⟩) hr hrest⟩
        | cons d gap =>
          refine ⟨_, halone ?_⟩
          intro e he
          obtain rfl : d = e := by simpa using he
          exact (isGap_cons.1 hg).1

theorem maximalRuns_iff {text : List Char} {ws : List (List Char)} :
    MaximalRuns text ws ↔ words text = ws := by
  constructor
  · exact words_of_maximalRuns
  · rintro rfl
    obtain ⟨ws, h⟩ := exists_maximalRuns text
    rwa [words_of_maximalRuns h]

theorem MaximalRuns.append_gap {text gap : List Char} {ws : List (List Char)} (hg : IsGap gap)
    (h : MaximalRuns text ws) :
    MaximalRuns (text ++ gap) ws := by
  induction h with
  | nil hfront => exact .nil (List.forall_mem_append.2 ⟨hfront, hg⟩)
  | @cons front word rest ws hfront hne hword hrest _ ih =>
    have hbegin : BeginsWithGap (rest ++ gap) := by
      cases rest with
      | nil => exact hg.beginsWithGap
      | cons c rest => exact hrest
    rw [List.append_assoc, List.append_assoc]
    exact .cons hfront hne hword hbegin ih

theorem words_append_gap {gap : List Char} (hg : IsGap gap) (text : List Char) :
    words (text ++ gap) = words text :=
  words_of_maximalRuns ((maximalRuns_iff.2 rfl).append_gap hg)

/-- The words hold all characters of a text but its white space. -/
theorem MaximalRuns.flatten_eq {text : List Char}
    {ws : List (List Char)} (h : MaximalRuns text ws) :
    ws.flatten = text.filter fun c => !isWhiteSpace c := by
  induction h with
  | nil hg => simpa [IsGap] using hg
  | @cons gap word rest ws hg _ hword _ _ ih =>
    have hgap : gap.filter (fun c => !isWhiteSpace c) = [] := by simpa [IsGap] using hg
    have hsolid : word.filter (fun c => !isWhiteSpace c) = word := by simpa [IsSolid] using hword
    rw [List.flatten_cons, ih, List.filter_append, List.filter_append, hgap, hsolid,
      List.nil_append]

theorem flatten_words (text : List Char) :
    (words text).flatten = text.filter fun c => !isWhiteSpace c :=
  (maximalRuns_iff.2 rfl).flatten_eq

theorem words_eq_nil_iff {text : List Char} : words text = [] ↔ IsGap text := by
  constructor
  · intro h
    have hflatten := flatten_words text
    rw [h] at hflatten
    simpa [IsGap] using hflatten.symm
  · exact fun hg => words_of_maximalRuns (.nil hg)

end TapeMachine.Text
