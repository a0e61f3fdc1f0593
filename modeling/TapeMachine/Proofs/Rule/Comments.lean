import TapeMachine.Proofs.Rule.RoundTrip
import TapeMachine.Proofs.Text.Marked

/-!
# Comments on the lines of a text

What a rule text says is told by the words of its lines in front of the comments (`Rule.codeWords`),
if the comment mark neither begins nor ends with white space. So a comment that is put at the end of
a line changes nothing, unless the mark also occurs across the end of the line: then the first
occurrence is that one, and the last characters of the line are lost.
-/

namespace TapeMachine.Rule

open Text

variable {s : Settings} {text : String} {l eol x : List Char} {r : Rule} {rules : List Rule}
  {pre post : List (List Char)}

/-- The words on a line in front of the comment, where the white space around the line does not
matter. -/
def codeWords (s : Settings) (l : List Char) : List (List Char) :=
  words (before s.commentMark.toList l)

/-! ## Lines -/

section Trimmed

variable (hs : s.Consistent) (htrim : trim s.commentMark.toList = s.commentMark.toList)
include hs htrim

theorem codeWords_trim (l : List Char) : codeWords s l = codeWords s (trim l) := by
  obtain ⟨_, _, _, _, _, hbegin, hend⟩ := trims_iff.2 htrim
  exact words_before_of_trims hs.commentMark_ne_nil hbegin hend (trims_trim l)

theorem isSignificant_iff_codeWords : IsSignificant s l ↔ codeWords s l ≠ [] := by
  rw [isSignificant_iff, Option.isSome_iff_exists, codeWords_trim hs htrim, codeWords, Ne,
    words_eq_nil_iff]
  simp only [significant?_eq_some_iff, trims_iff]
  obtain ⟨_, _, _, _, _, hbegin, _⟩ := trims_trim l
  constructor
  · rintro ⟨content, rfl, hne, hmark⟩ hgap
    cases hcontent : trim l with
    | nil => exact hne hcontent
    | cons c rest =>
      -- The first character is no white space, and no comment begins there, so it is in a word.
      rw [hcontent] at hmark hgap hbegin
      rw [before_unmarked_cons hmark] at hgap
      have hsolid := hbegin c rfl
      rw [(isGap_cons.1 hgap).1] at hsolid
      cases hsolid
  · intro hcode
    refine ⟨trim l, rfl, fun hnil => hcode ?_, fun hmark => hcode ?_⟩
    · rw [hnil]
      exact isGap_nil
    · rw [before_marked hmark]
      exact isGap_nil

theorem reads_iff_codeWords : Reads s l r ↔ codeWords s l = wordsOf s r := by
  rw [codeWords_trim hs htrim]
  constructor
  · rintro ⟨ws, hws, hspells⟩
    rw [← hspells.eq_wordsOf]
    exact hasWords_iff.1 hws
  · intro h
    exact ⟨_, hasWords_iff.2 h, spells_wordsOf hs.left_ne_right r⟩

/-- A text is read as the rules whose words stand on its lines, apart from those without words. -/
theorem parse_eq_ok_iff_codeWords : parse s text = .ok rules ↔
    text.length ≤ s.maxRulesSize.toNat ∧
      ((lines text.toList).map (codeWords s)).filter (· ≠ []) = rules.map (wordsOf s) := by
  have hfilter : ((lines text.toList).map (codeWords s)).filter (· ≠ []) =
      ((lines text.toList).filter (IsSignificant s ·)).map (codeWords s) := by
    have hsame (l : List Char) : ((fun ws => decide (ws ≠ [])) ∘ codeWords s) l =
        decide (IsSignificant s l) := by
      simp [isSignificant_iff_codeWords hs htrim]
    rw [List.filter_map, List.filter_congr fun l _ => hsame l]
  have hreads : Reads s = fun l r => codeWords s l = wordsOf s r := by
    funext l r
    exact propext (reads_iff_codeWords hs htrim)
  have heq (kept : List (List Char)) : List.Forall₂ (Reads s) kept rules ↔
      kept.map (codeWords s) = rules.map (wordsOf s) := by
    rw [← List.forall₂_eq_eq_eq, List.forall₂_map_left_iff, List.forall₂_map_right_iff, hreads]
  rw [parse_eq_ok_iff, hfilter, heq]

theorem codeWords_commented_iff (heol : IsGap eol) (c : List Char) :
    codeWords s (l ++ ' ' :: (s.commentMark.toList ++ (c ++ eol))) = codeWords s (l ++ eol) ↔
      s.commentMark.toList <:+: l ∨ ¬ Overlaps s.commentMark.toList l := by
  obtain ⟨_, _, _, _, _, hbegin, hend⟩ := trims_iff.2 htrim
  have hne := hs.commentMark_ne_nil
  rw [codeWords, codeWords]
  by_cases hmark : s.commentMark.toList <:+: l
  · -- The line is cut before either end of it is reached.
    simp only [before_append_of_marked hne hmark, hmark, true_or]
  · have hself : words (before s.commentMark.toList (l ++ eol)) = words l := by
      rw [before_append_gap hne hend heol hmark, words_append_gap heol]
    rw [hself]
    by_cases hover : Overlaps s.commentMark.toList l
    · simp [hmark, hover, words_before_commented_ne hbegin hover]
    · have hspace : IsGap [' '] := isGap_cons.2 ⟨by decide, isGap_nil⟩
      rw [before_commented hmark hover, words_append_gap hspace]
      simp [hover]

end Trimmed

/-! ## Texts with another line in one place -/

theorem lines_replaced (hlines : IsLines text.toList (pre ++ l :: post)) (x : List Char) :
    lines (String.ofList (['\n'].intercalate (pre ++ x :: post))).toList =
      pre ++ (lines x ++ post) := by
  obtain ⟨_, hclean, _⟩ := hlines
  simp only [List.forall_mem_append, List.forall_mem_cons] at hclean
  rw [String.toList_ofList, lines_joined (by simp), List.flatMap_append, List.flatMap_cons,
    flatMap_lines hclean.1, flatMap_lines hclean.2.2]

theorem filter_ne_nil_replace_iff {α : Type} {a b : List α} {xs ys : List (List α)} :
    (xs ++ a :: ys).filter (· ≠ []) = (xs ++ b :: ys).filter (· ≠ []) ↔ a = b := by
  refine ⟨fun h => ?_, fun h => by rw [h]⟩
  rw [List.filter_append, List.filter_append, List.append_cancel_left_eq] at h
  cases a with
  | nil =>
    cases b with
    | nil => rfl
    | cons c b => simp at h
  | cons c a =>
    cases b with
    | nil => simp at h
    | cons d b => simpa using h

/-- Another line in the place of one leaves the rules as they are just if it has the same words. -/
theorem parse_replaced_iff (hs : s.Consistent)
    (htrim : trim s.commentMark.toList = s.commentMark.toList) (h : parse s text = .ok rules)
    (hlines : IsLines text.toList (pre ++ l :: post)) (hx : '\n' ∉ x)
    (hsize : (String.ofList (['\n'].intercalate (pre ++ x :: post))).length ≤
      s.maxRulesSize.toNat) :
    parse s (String.ofList (['\n'].intercalate (pre ++ x :: post))) = .ok rules ↔
      codeWords s x = codeWords s l := by
  have hold := ((parse_eq_ok_iff_codeWords hs htrim).1 h).2
  rw [isLines_iff.1 hlines, List.map_append, List.map_cons] at hold
  rw [parse_eq_ok_iff_codeWords hs htrim, lines_replaced hlines, lines_of_notMem hx,
    List.singleton_append, List.map_append, List.map_cons, ← hold, filter_ne_nil_replace_iff]
  exact and_iff_right hsize

/-! ## Texts with a comment more -/

/-- The text with a comment at the end of one line, in front of the white space `eol`. -/
def commented (s : Settings) (pre : List (List Char)) (l c eol : List Char)
    (post : List (List Char)) : String :=
  String.ofList
    (['\n'].intercalate (pre ++ (l ++ ' ' :: (s.commentMark.toList ++ (c ++ eol))) :: post))

theorem not_isSignificant_of_isGap (hl : IsGap l) : ¬ IsSignificant s l := by
  rintro ⟨content, htrims, hne, _⟩
  rw [trims_iff, trim_eq_nil_iff.2 hl] at htrims
  exact hne htrims.symm

theorem trim_or_prefix_of_not_isSignificant (h : ¬ IsSignificant s l) :
    trim l = [] ∨ s.commentMark.toList <+: trim l := by
  by_contra hno
  rw [not_or] at hno
  exact h ⟨_, trims_trim l, hno⟩

theorem newline_notMem_commented {c : List Char}
    (hlines : IsLines text.toList (pre ++ (l ++ eol) :: post)) (hmark : '\n' ∉ s.commentMark.toList)
    (hc : '\n' ∉ c) :
    '\n' ∉ l ++ ' ' :: (s.commentMark.toList ++ (c ++ eol)) := by
  have hline := hlines.2.1 (l ++ eol) (by simp)
  simp only [List.mem_append, List.mem_cons, not_or] at hline ⊢
  exact ⟨hline.1, by decide, hmark, hc, hline.2⟩

theorem parse_commented_iff {c : List Char} (hs : s.Consistent)
    (htrim : trim s.commentMark.toList = s.commentMark.toList) (hmark : '\n' ∉ s.commentMark.toList)
    (h : parse s text = .ok rules) (hlines : IsLines text.toList (pre ++ (l ++ eol) :: post))
    (heol : IsGap eol) (hc : '\n' ∉ c)
    (hsize : (commented s pre l c eol post).length ≤ s.maxRulesSize.toNat) :
    parse s (commented s pre l c eol post) = .ok rules ↔
      s.commentMark.toList <:+: l ∨ ¬ Overlaps s.commentMark.toList l := by
  rw [← codeWords_commented_iff hs htrim heol c]
  exact parse_replaced_iff hs htrim h hlines (newline_notMem_commented hlines hmark hc) hsize

/-- If a comment on a line of its own is skipped, all lines that it takes are. -/
theorem not_isSignificant_of_parse_commented {c : List Char} (h : parse s text = .ok rules)
    (hlines : IsLines text.toList (pre ++ (l ++ eol) :: post)) (hl : IsGap l) (heol : IsGap eol)
    (h' : parse s (commented s pre l c eol post) = .ok rules) :
    ∀ x ∈ lines (l ++ ' ' :: (s.commentMark.toList ++ (c ++ eol))), ¬ IsSignificant s x := by
  have hgap : IsGap (l ++ eol) := List.forall_mem_append.2 ⟨hl, heol⟩
  have hold := (parse_eq_ok_iff.1 h).2.length_eq
  have hnew := (parse_eq_ok_iff.1 h').2.length_eq
  rw [isLines_iff.1 hlines, List.filter_append,
    List.filter_cons_of_neg (by simpa using not_isSignificant_of_isGap hgap)] at hold
  rw [commented, lines_replaced hlines, List.filter_append, List.filter_append] at hnew
  simp only [List.length_append] at hold hnew
  have hnone : (lines (l ++ ' ' :: (s.commentMark.toList ++ (c ++ eol)))).filter
      (IsSignificant s ·) = [] := by
    rw [← List.length_eq_zero_iff]
    omega
  simpa using hnone

/-- A mark that is all on insignificant lines is not spread over several. -/
theorem newline_notMem_of_skipped (hs : s.Consistent) (hmark : ∀ c ∈ s.commentMark.toList, c ∈ x)
    (hskip : ∀ y ∈ lines x, ¬ IsSignificant s y) : '\n' ∉ s.commentMark.toList := by
  intro hmem
  have hblank : ∀ y ∈ lines x, IsGap y := by
    intro y hy
    obtain hnil | hprefix := trim_or_prefix_of_not_isSignificant (hskip y hy)
    · exact trim_eq_nil_iff.1 hnil
    · obtain ⟨left, right, hsplit, _⟩ := trims_trim y
      have hcontent : '\n' ∈ trim y := hprefix.subset hmem
      refine absurd ?_ (newline_notMem_of_mem_lines x y hy)
      rw [hsplit]
      simp [hcontent]
  obtain ⟨c, hc, hsolid⟩ := hs.commentMark
  have hcx := hmark c hc
  rw [← (isLines_iff.2 (rfl : lines x = _)).2.2] at hcx
  obtain rfl | ⟨y, hy, hcy⟩ := mem_joined hcx
  · cases hsolid
  · rw [hblank y hy c hcy] at hsolid
    cases hsolid

/-- A comment on a line of its own, with nothing in it, is skipped just if the mark stands on one
line and is found there when the line is trimmed. -/
theorem parse_lone_comment_iff (hs : s.Consistent) (h : parse s text = .ok rules)
    (hlines : IsLines text.toList (pre ++ (l ++ eol) :: post)) (hl : IsGap l) (heol : IsGap eol)
    (hsize : (commented s pre l [] eol post).length ≤ s.maxRulesSize.toNat) :
    parse s (commented s pre l [] eol post) = .ok rules ↔
      '\n' ∉ s.commentMark.toList ∧ trim s.commentMark.toList = s.commentMark.toList := by
  constructor
  · intro h'
    have hskip := not_isSignificant_of_parse_commented h hlines hl heol h'
    have hmark := newline_notMem_of_skipped hs (fun c hc => by simp [hc]) hskip
    have hclean := newline_notMem_commented hlines hmark List.not_mem_nil
    rw [lines_of_notMem hclean, List.forall_mem_singleton] at hskip
    have hspace : IsGap (l ++ [' ']) :=
      List.forall_mem_append.2 ⟨hl, isGap_cons.2 ⟨by decide, isGap_nil⟩⟩
    have htrim : trim (l ++ ' ' :: (s.commentMark.toList ++ ([] ++ eol))) =
        trim s.commentMark.toList := by
      rw [List.nil_append, List.append_cons, trim_gap_append hspace heol]
    refine ⟨hmark, ?_⟩
    obtain hnil | hprefix := trim_or_prefix_of_not_isSignificant hskip
    · rw [htrim, trim_eq_nil_iff] at hnil
      obtain ⟨c, hc, hsolid⟩ := hs.commentMark
      rw [hnil c hc] at hsolid
      cases hsolid
    · rw [htrim] at hprefix
      exact trim_eq_self_of_prefix hprefix
  · rintro ⟨hmark, htrim⟩
    obtain ⟨_, _, _, _, _, hbegin, _⟩ := trims_iff.2 htrim
    refine (parse_commented_iff hs htrim hmark h hlines heol List.not_mem_nil hsize).2 (.inr ?_)
    exact not_overlaps_of_isGap hbegin hl

/-- A comment at the end of a line changes nothing if its mark has no white space. If the mark
stands on one line and neither begins nor ends with white space, it changes nothing just if the line
has the mark already or no mark comes about across its end. Other marks do not even make a comment
of a line of their own. -/
theorem comments_change_nothing {s : Settings} {text : String} {rules : List Rule}
    (hs : s.check = .ok ()) (h : parse s text = .ok rules) {pre post : List (List Char)}
    {l eol : List Char} (hlines : IsLines text.toList (pre ++ (l ++ eol) :: post))
    (heol : IsGap eol) :
    let mark := s.commentMark.toList
    let allowed := s.maxRulesSize.toNat
    (∀ c, '\n' ∉ c → (commented s pre l c eol post).length ≤ allowed →
      (IsSolid mark → parse s (commented s pre l c eol post) = .ok rules) ∧
      ('\n' ∉ mark → trim mark = mark →
        (parse s (commented s pre l c eol post) = .ok rules ↔ mark <:+: l ∨ ¬ Overlaps mark l))) ∧
    (IsGap l → (commented s pre l [] eol post).length ≤ allowed →
      (parse s (commented s pre l [] eol post) = .ok rules ↔ '\n' ∉ mark ∧ trim mark = mark)) := by
  intro mark allowed
  have hs := Settings.check_eq_ok_iff.1 hs
  refine ⟨fun c hc hsize => ⟨fun hsolid => ?_, fun hmark htrim => ?_⟩, fun hl hsize => ?_⟩
  · have hword : IsWord mark := ⟨hs.commentMark_ne_nil, hsolid⟩
    have htrim := trims_iff.1 (trims_self hword hword List.prefix_rfl List.suffix_rfl)
    have hmark : '\n' ∉ mark := fun hmem => absurd (hsolid _ hmem) (by decide)
    refine (parse_commented_iff hs htrim hmark h hlines heol hc hsize).2 (.inr ?_)
    rintro ⟨u, v, hsplit, _⟩
    have hspace : ' ' ∈ mark := by simp [mark, hsplit]
    exact absurd (hsolid _ hspace) (by decide)
  · exact parse_commented_iff hs htrim hmark h hlines heol hc hsize
  · exact parse_lone_comment_iff hs h hlines hl heol hsize

/-- A comment in front of a carriage return. -/
theorem comments_change_nothing_before_return :
    let line := "INIT a HALT b R".toList
    parse {} "INIT a HALT b R\r\n" = .ok [⟨"INIT", 'a', ⟨"HALT", 'b', .right⟩⟩] ∧
      commented {} [] line " end".toList ['\r'] [[]] = "INIT a HALT b R // end\r\n" ∧
      parse {} (commented {} [] line " end".toList ['\r'] [[]]) =
        .ok [⟨"INIT", 'a', ⟨"HALT", 'b', .right⟩⟩] := by
  intro line
  have hparse : parse {} "INIT a HALT b R\r\n" = .ok [⟨"INIT", 'a', ⟨"HALT", 'b', .right⟩⟩] := by
    decide +kernel
  have hlines : IsLines "INIT a HALT b R\r\n".toList ([] ++ (line ++ ['\r']) :: [[]]) :=
    isLines_iff.2 (by decide +kernel)
  have hreturn : IsGap ['\r'] := by simp [IsGap, isWhiteSpace]
  obtain ⟨hcomments, _⟩ := comments_change_nothing (by decide +kernel) hparse hlines hreturn
  have hsolid : IsSolid (Settings.commentMark {}).toList := by simp [IsSolid, isWhiteSpace]
  exact ⟨hparse, by decide +kernel,
    (hcomments " end".toList (by decide) (by decide +kernel)).1 hsolid⟩

/-- A mark that comes about across the end of the line, one that ends with a space, one that begins
with one, and one with a line feed. -/
theorem comment_changes_rules :
    let r : Rule := ⟨"INIT", 'a', ⟨"HALT", 'b', .right⟩⟩
    let overlapping : Settings := { commentMark := "R R" }
    let ending : Settings := { commentMark := "# " }
    let beginning : Settings := { commentMark := " #" }
    let broken : Settings := { commentMark := "#\n#" }
    (∀ s ∈ [overlapping, ending, beginning, broken],
      s.check = .ok () ∧ parse s "INIT a HALT b R" = .ok [r] ∧ parse s "" = .ok []) ∧
    parse overlapping "INIT a HALT b R R R" = .error (.wordCount 1 4) ∧
    parse ending "INIT a HALT b R # " = .error (.wordCount 1 6) ∧
    parse beginning "  #" = .error (.wordCount 1 1) ∧
    parse broken "INIT a HALT b R #\n#" = .error (.wordCount 1 6) := by
  decide +kernel

end TapeMachine.Rule
