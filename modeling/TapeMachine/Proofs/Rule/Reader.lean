import Mathlib.Data.List.Forall2
import TapeMachine.Proofs.Checks
import TapeMachine.Proofs.Rule.LineGrammar
import TapeMachine.Proofs.Text.Lines
import TapeMachine.Rule.Reader

/-!
# What rule texts are accepted

The language of rule texts, told without the functions that read them: which lines count
(`Rule.IsSignificant`), what words they have (`Rule.HasWords`), which rule five words spell
(`Rule.Spells`) and what is to blame in words that spell none (`Rule.Blames`). `Rule.parse` gives
the rules of all significant lines in order, or else blames the first line that has none.
-/

namespace TapeMachine.Rule

open Text

/-- The line says something: without white space at its ends it is not empty and no comment. -/
def IsSignificant (s : Settings) (l : List Char) : Prop :=
  ∃ content, Trims l content ∧ content ≠ [] ∧ ¬ s.commentMark.toList <+: content

/-- The words on a line, in front of the first comment. -/
def HasWords (s : Settings) (l : List Char) (ws : List (List Char)) : Prop :=
  ∃ content code, Trims l content ∧ CutsBefore s.commentMark.toList content code ∧
    MaximalRuns code ws

/-- A word for a move. Where both moves have the same word, it is the one to the left. -/
def NamesMove (s : Settings) (word : List Char) (d : Direction) : Prop :=
  (word = s.left.toList ∧ d = .left) ∨
    (word ≠ s.left.toList ∧ word = s.right.toList ∧ d = .right)

/-- Five words that spell a rule. -/
def Spells (s : Settings) (ws : List (List Char)) (r : Rule) : Prop :=
  ∃ move, NamesMove s move r.action.direction ∧
    ws = [r.state.toList, [r.symbol], r.action.newState.toList, [r.action.newSymbol], move]

/-- What is to blame in words that spell no rule. Each constructor excludes those before it. -/
inductive Blames (s : Settings) (line : Nat) : List (List Char) → Fault → Prop where
  | wordCount {ws} : ws.length ≠ 5 → Blames s line ws (.wordCount line ws.length)
  | direction {state symbol newState newSymbol move} : move ≠ s.left.toList →
      move ≠ s.right.toList →
      Blames s line [state, symbol, newState, newSymbol, move]
        (.direction line (String.ofList move) s.left s.right)
  | current {state symbol newState newSymbol move d} : NamesMove s move d → symbol.length ≠ 1 →
      Blames s line [state, symbol, newState, newSymbol, move]
        (.symbol line .current (String.ofList symbol))
  | new {state symbol newState newSymbol move d} : NamesMove s move d → symbol.length = 1 →
      newSymbol.length ≠ 1 →
      Blames s line [state, symbol, newState, newSymbol, move]
        (.symbol line .new (String.ofList newSymbol))

/-- The line has a rule. -/
def Reads (s : Settings) (l : List Char) (r : Rule) : Prop :=
  ∃ ws, HasWords s l ws ∧ Spells s ws r

/-- The line has no rule, for the given reason. -/
def Fails (s : Settings) (line : Nat) (l : List Char) (fault : Fault) : Prop :=
  ∃ ws, HasWords s l ws ∧ Blames s line ws fault

/-- The fault is that of the first significant line without a rule, when the lines are counted from
`n` on. -/
def BlamesFirst (s : Settings) (n : Nat) (ls : List (List Char)) (fault : Fault) : Prop :=
  ∃ pre l post, ls = pre ++ l :: post ∧ (∀ l' ∈ pre, IsSignificant s l' → ∃ r, Reads s l' r) ∧
    IsSignificant s l ∧ Fails s (n + pre.length) l fault

variable {s : Settings}

/-! ## Words -/

theorem ofList_eq_iff {word : List Char} {text : String} :
    String.ofList word = text ↔ word = text.toList := by
  constructor
  · rintro rfl
    exact String.toList_ofList.symm
  · rintro rfl
    exact String.ofList_toList

theorem parseDirection_eq_ok_iff {line : Nat} {word : List Char} {d : Direction} :
    parseDirection s line (String.ofList word) = .ok d ↔ NamesMove s word d := by
  unfold parseDirection NamesMove
  simp only [ofList_eq_iff]
  by_cases hl : word = s.left.toList
  · rw [if_pos hl]
    constructor
    · intro h
      exact .inl ⟨hl, (Except.ok.inj h).symm⟩
    · rintro (⟨_, rfl⟩ | ⟨hne, _⟩)
      · rfl
      · exact absurd hl hne
  · by_cases hr : word = s.right.toList
    · rw [if_neg hl, if_pos hr]
      constructor
      · intro h
        exact .inr ⟨hl, hr, (Except.ok.inj h).symm⟩
      · rintro (⟨heq, _⟩ | ⟨_, _, rfl⟩)
        · exact absurd heq hl
        · rfl
    · simp [hl, hr]

theorem parseDirection_eq_error_iff {line : Nat} {word : List Char} {fault : Fault} :
    parseDirection s line (String.ofList word) = .error fault ↔ word ≠ s.left.toList ∧
      word ≠ s.right.toList ∧ fault = .direction line (String.ofList word) s.left s.right := by
  unfold parseDirection
  simp only [ofList_eq_iff]
  by_cases hl : word = s.left.toList
  · simp [hl]
  · by_cases hr : word = s.right.toList
    · rw [if_neg hl, if_pos hr]
      simp [hr]
    · simp [hl, hr, eq_comm]

theorem parseSymbol_eq_ok_iff {line : Nat} {field : SymbolField} {word : List Char} {c : Char} :
    parseSymbol line field word = .ok c ↔ word = [c] := by
  unfold parseSymbol
  split
  · simp
  · rename_i hno
    simpa using hno c

theorem parseSymbol_eq_error_iff {line : Nat} {field : SymbolField} {word : List Char}
    {fault : Fault} :
    parseSymbol line field word = .error fault ↔
      word.length ≠ 1 ∧ fault = .symbol line field (String.ofList word) := by
  unfold parseSymbol
  split
  · simp
  · rename_i hno
    have hlength : word.length ≠ 1 := by
      intro hone
      obtain ⟨c, rfl⟩ := List.length_eq_one_iff.1 hone
      exact hno c rfl
    simp [hlength, eq_comm]

theorem ofWords_eq_ok_iff {line : Nat} {ws : List (List Char)} {r : Rule} :
    ofWords s line ws = .ok r ↔ Spells s ws r := by
  constructor
  · intro h
    unfold ofWords at h
    split at h
    · rename_i state symbol newState newSymbol move
      obtain ⟨d, hd, h⟩ := Checks.bind_eq_ok_iff.1 h
      obtain ⟨c, hc, h⟩ := Checks.bind_eq_ok_iff.1 h
      obtain ⟨c', hc', h⟩ := Checks.bind_eq_ok_iff.1 h
      obtain rfl := parseSymbol_eq_ok_iff.1 hc
      obtain rfl := parseSymbol_eq_ok_iff.1 hc'
      obtain rfl := Except.ok.inj h
      refine ⟨move, parseDirection_eq_ok_iff.1 hd, ?_⟩
      simp only [String.toList_ofList]
    · cases h
  · rintro ⟨move, hd, rfl⟩
    refine Checks.bind_eq_ok_iff.2 ⟨_, parseDirection_eq_ok_iff.2 hd, ?_⟩
    refine Checks.bind_eq_ok_iff.2 ⟨_, parseSymbol_eq_ok_iff.2 rfl, ?_⟩
    refine Checks.bind_eq_ok_iff.2 ⟨_, parseSymbol_eq_ok_iff.2 rfl, ?_⟩
    simp only [String.ofList_toList]
    rfl

theorem ofWords_eq_error_iff {line : Nat} {ws : List (List Char)} {fault : Fault} :
    ofWords s line ws = .error fault ↔ Blames s line ws fault := by
  constructor
  · intro h
    unfold ofWords at h
    split at h
    · rename_i state symbol newState newSymbol move
      obtain hmove | ⟨d, hmove, hrest⟩ := Checks.bind_eq_error_iff.1 h
      · obtain ⟨hl, hr, rfl⟩ := parseDirection_eq_error_iff.1 hmove
        exact .direction hl hr
      rw [parseDirection_eq_ok_iff] at hmove
      obtain hcurrent | ⟨c, hcurrent, hlast⟩ := Checks.bind_eq_error_iff.1 hrest
      · obtain ⟨hlength, rfl⟩ := parseSymbol_eq_error_iff.1 hcurrent
        exact .current hmove hlength
      have hone : symbol.length = 1 := by
        rw [parseSymbol_eq_ok_iff.1 hcurrent, List.length_singleton]
      obtain hnew | ⟨c', _, hnone⟩ := Checks.bind_eq_error_iff.1 hlast
      · obtain ⟨hlength, rfl⟩ := parseSymbol_eq_error_iff.1 hnew
        exact .new hmove hone hlength
      · cases hnone
    · rename_i hfive
      obtain rfl := Except.error.inj h
      refine .wordCount fun hlength => ?_
      match ws, hlength with
      | [state, symbol, newState, newSymbol, move], _ => exact hfive _ _ _ _ _ rfl
  · intro h
    cases h with
    | wordCount hlength =>
      unfold ofWords
      split
      · exact absurd rfl hlength
      · rfl
    | direction hl hr =>
      exact Checks.bind_eq_error_iff.2 (.inl (parseDirection_eq_error_iff.2 ⟨hl, hr, rfl⟩))
    | current hmove hlength =>
      refine Checks.bind_eq_error_iff.2 (.inr ⟨_, parseDirection_eq_ok_iff.2 hmove, ?_⟩)
      exact Checks.bind_eq_error_iff.2 (.inl (parseSymbol_eq_error_iff.2 ⟨hlength, rfl⟩))
    | new hmove hone hlength =>
      obtain ⟨c, rfl⟩ := List.length_eq_one_iff.1 hone
      refine Checks.bind_eq_error_iff.2 (.inr ⟨_, parseDirection_eq_ok_iff.2 hmove, ?_⟩)
      refine Checks.bind_eq_error_iff.2 (.inr ⟨_, parseSymbol_eq_ok_iff.2 rfl, ?_⟩)
      exact Checks.bind_eq_error_iff.2 (.inl (parseSymbol_eq_error_iff.2 ⟨hlength, rfl⟩))

/-! ## Lines -/

variable {l : List Char}

theorem significant?_eq_some_iff {content : List Char} :
    significant? s l = some content ↔
      Trims l content ∧ content ≠ [] ∧ ¬ s.commentMark.toList <+: content := by
  rw [trims_iff]
  show (if (trim l).isEmpty || s.commentMark.toList.isPrefixOf (trim l) then none
    else some (trim l)) = some content ↔ _
  split
  · rename_i hskip
    simp only [Bool.or_eq_true, List.isEmpty_iff, List.isPrefixOf_iff_prefix] at hskip
    constructor
    · intro h
      cases h
    · rintro ⟨rfl, hne, hmark⟩
      exact absurd hskip (not_or.2 ⟨hne, hmark⟩)
  · rename_i hkeep
    simp only [Bool.or_eq_true, List.isEmpty_iff, List.isPrefixOf_iff_prefix, not_or] at hkeep
    constructor
    · intro h
      obtain rfl := Option.some.inj h
      exact ⟨rfl, hkeep⟩
    · rintro ⟨rfl, _⟩
      rfl

theorem isSignificant_iff : IsSignificant s l ↔ (significant? s l).isSome = true := by
  rw [Option.isSome_iff_exists]
  exact exists_congr fun content => significant?_eq_some_iff.symm

instance : DecidablePred (IsSignificant s) :=
  fun _ => decidable_of_iff _ isSignificant_iff.symm

theorem hasWords_iff {ws : List (List Char)} :
    HasWords s l ws ↔ words (before s.commentMark.toList (trim l)) = ws := by
  constructor
  · rintro ⟨content, code, hcontent, hcode, hwords⟩
    rw [trims_iff.1 hcontent, cutsBefore_iff.1 hcode, maximalRuns_iff.1 hwords]
  · rintro rfl
    exact ⟨_, _, trims_iff.2 rfl, cutsBefore_iff.2 rfl, maximalRuns_iff.2 rfl⟩

theorem reads_iff (line : Nat) {r : Rule} : Reads s l r ↔
    ofWords s line (words (before s.commentMark.toList (trim l))) = .ok r := by
  simp only [Reads, hasWords_iff, exists_eq_left', ofWords_eq_ok_iff]

theorem fails_iff {line : Nat} {fault : Fault} : Fails s line l fault ↔
    ofWords s line (words (before s.commentMark.toList (trim l))) = .error fault := by
  simp only [Fails, hasWords_iff, exists_eq_left', ofWords_eq_error_iff]

theorem Reads.unique {r r' : Rule} (h : Reads s l r) (h' : Reads s l r') : r = r' := by
  rw [reads_iff 1] at h h'
  exact Except.ok.inj (h.symm.trans h')

theorem Reads.not_fails {line : Nat} {r : Rule} (h : Reads s l r) (fault : Fault) :
    ¬ Fails s line l fault := by
  rw [fails_iff, (reads_iff line).1 h]
  intro hno
  cases hno

theorem Fails.unique {line : Nat} {fault fault' : Fault} (h : Fails s line l fault)
    (h' : Fails s line l fault') : fault = fault' := by
  rw [fails_iff] at h h'
  exact Except.error.inj (h.symm.trans h')

theorem parseLine_eq (s : Settings) (line : Nat) (l : List Char) :
    parseLine s line l = if IsSignificant s l then
      (ofWords s line (words (before s.commentMark.toList (trim l)))).map some else .ok none := by
  split
  · rename_i hsig
    obtain ⟨content, hcontent⟩ := hsig
    rw [parseLine, significant?_eq_some_iff.2 hcontent, trims_iff.1 hcontent.1]
  · rename_i hsig
    rw [isSignificant_iff, Option.not_isSome_iff_eq_none] at hsig
    rw [parseLine, hsig]

theorem parseLine_eq_none_iff {line : Nat} :
    parseLine s line l = .ok none ↔ ¬ IsSignificant s l := by
  rw [parseLine_eq]
  by_cases hsig : IsSignificant s l
  · cases ofWords s line (words (before s.commentMark.toList (trim l))) <;>
      simp [Except.map, hsig]
  · simp [hsig]

theorem parseLine_eq_some_iff {line : Nat} {r : Rule} :
    parseLine s line l = .ok (some r) ↔ IsSignificant s l ∧ Reads s l r := by
  rw [parseLine_eq, reads_iff line]
  by_cases hsig : IsSignificant s l
  · cases ofWords s line (words (before s.commentMark.toList (trim l))) <;>
      simp [Except.map, hsig]
  · simp [hsig]

theorem parseLine_eq_error_iff {line : Nat} {fault : Fault} :
    parseLine s line l = .error fault ↔ IsSignificant s l ∧ Fails s line l fault := by
  rw [parseLine_eq, fails_iff]
  by_cases hsig : IsSignificant s l
  · cases ofWords s line (words (before s.commentMark.toList (trim l))) <;>
      simp [Except.map, hsig]
  · simp [hsig]

/-! ## Texts -/

/-- The rules found are those of the significant lines, in order. -/
theorem parseLines_eq_ok_iff {n : Nat} {found rules : List Rule} {ls : List (List Char)} :
    parseLines s n found ls = .ok rules ↔
      ∃ new, rules = found.reverse ++ new ∧
        List.Forall₂ (Reads s) (ls.filter (IsSignificant s ·)) new := by
  induction ls generalizing n found with
  | nil => simp [parseLines, eq_comm]
  | cons l ls ih =>
    rw [parseLines]
    cases hl : parseLine s n l with
    | error fault =>
      obtain ⟨hsig, hfails⟩ := parseLine_eq_error_iff.1 hl
      rw [List.filter_cons_of_pos (by simpa using hsig)]
      constructor
      · intro h
        cases h
      · rintro ⟨new, _, hnew⟩
        obtain ⟨r, _, hr, _, _⟩ := List.forall₂_cons_left_iff.1 hnew
        exact absurd hfails (hr.not_fails fault)
    | ok read =>
      cases read with
      | none =>
        rw [List.filter_cons_of_neg (by simpa using parseLine_eq_none_iff.1 hl)]
        exact ih
      | some r =>
        obtain ⟨hsig, hr⟩ := parseLine_eq_some_iff.1 hl
        rw [List.filter_cons_of_pos (by simpa using hsig)]
        show parseLines s (n + 1) (r :: found) ls = .ok rules ↔ _
        rw [ih]
        constructor
        · rintro ⟨new, rfl, hnew⟩
          exact ⟨r :: new, by simp, .cons hr hnew⟩
        · rintro ⟨all, rfl, hall⟩
          obtain ⟨r', new, hr', hnew, rfl⟩ := List.forall₂_cons_left_iff.1 hall
          -- A line has only one rule.
          obtain rfl : r = r' := hr.unique hr'
          exact ⟨new, by simp, hnew⟩

theorem parse_eq_ok_iff {text : String} {rules : List Rule} :
    parse s text = .ok rules ↔ text.length ≤ s.maxRulesSize.toNat ∧
      List.Forall₂ (Reads s) ((lines text.toList).filter (IsSignificant s ·)) rules := by
  rw [parse, Checks.ite_error_eq_ok_iff, Nat.not_lt, parseLines_eq_ok_iff]
  simp

theorem blamesFirst_cons_of_fails {n : Nat} {ls : List (List Char)} {g fault : Fault}
    (hsig : IsSignificant s l) (hg : Fails s n l g) :
    BlamesFirst s n (l :: ls) fault ↔ g = fault := by
  constructor
  · rintro ⟨pre, l', post, hsplit, hpre, _, hfails⟩
    cases pre with
    | nil =>
      cases hsplit
      exact hg.unique hfails
    | cons d pre =>
      cases hsplit
      obtain ⟨r, hr⟩ := hpre l List.mem_cons_self hsig
      exact absurd hg (hr.not_fails g)
  · rintro rfl
    exact ⟨[], l, ls, rfl, by simp, hsig, hg⟩

theorem blamesFirst_cons_of_reads {n : Nat} {ls : List (List Char)} {fault : Fault}
    (hl : IsSignificant s l → ∃ r, Reads s l r) :
    BlamesFirst s n (l :: ls) fault ↔ BlamesFirst s (n + 1) ls fault := by
  constructor
  · rintro ⟨pre, l', post, hsplit, hpre, hsig, hfails⟩
    cases pre with
    | nil =>
      cases hsplit
      obtain ⟨r, hr⟩ := hl hsig
      exact absurd hfails (hr.not_fails fault)
    | cons d pre =>
      cases hsplit
      refine ⟨pre, l', post, rfl, fun d hd => hpre d (List.mem_cons_of_mem _ hd), hsig, ?_⟩
      rwa [Nat.add_assoc, Nat.add_comm 1]
  · rintro ⟨pre, l', post, rfl, hpre, hsig, hfails⟩
    refine ⟨l :: pre, l', post, rfl, List.forall_mem_cons.2 ⟨hl, hpre⟩, hsig, ?_⟩
    rwa [List.length_cons, Nat.add_comm pre.length, ← Nat.add_assoc]

theorem parseLines_eq_error_iff {n : Nat} {found : List Rule} {ls : List (List Char)}
    {fault : Fault} :
    parseLines s n found ls = .error fault ↔ BlamesFirst s n ls fault := by
  induction ls generalizing n found with
  | nil => simp [parseLines, BlamesFirst]
  | cons l ls ih =>
    rw [parseLines]
    cases hl : parseLine s n l with
    | error g =>
      obtain ⟨hsig, hfails⟩ := parseLine_eq_error_iff.1 hl
      rw [blamesFirst_cons_of_fails hsig hfails]
      show Except.error g = Except.error fault ↔ g = fault
      rw [Except.error.injEq]
    | ok read =>
      cases read with
      | none =>
        have hskip := parseLine_eq_none_iff.1 hl
        rw [blamesFirst_cons_of_reads fun hsig => absurd hsig hskip]
        exact ih
      | some r =>
        have hr := (parseLine_eq_some_iff.1 hl).2
        rw [blamesFirst_cons_of_reads fun _ => ⟨r, hr⟩]
        exact ih

theorem exists_reads_of_forall₂ {ls : List (List Char)} {rules : List Rule}
    (h : List.Forall₂ (Reads s) ls rules) : ∀ l ∈ ls, ∃ r, Reads s l r := by
  induction h with
  | nil => simp
  | cons hr _ ih => exact List.forall_mem_cons.2 ⟨⟨_, hr⟩, ih⟩

theorem BlamesFirst.ne_tooLarge {n : Nat} {ls : List (List Char)} {fault : Fault}
    (h : BlamesFirst s n ls fault) (size : Nat) (max : UInt64) : fault ≠ .tooLarge size max := by
  obtain ⟨_, _, _, _, _, _, ws, _, hblames⟩ := h
  cases hblames <;> simp

/-- The rule texts that are accepted, and what is said of the others. A text that is too large is
refused for that reason alone. In any other, each significant line has to spell a rule, and the
rules are those that the lines spell, in order; or the first line that spells none is blamed, by its
number among all lines. The grammar that tells the words of a line apart has one outcome on every
text, and that is success. -/
theorem parse_accepts_line_grammar (s : Settings) (text : String) :
    (∀ size max, parse s text = .error (.tooLarge size max) ↔
      s.maxRulesSize.toNat < text.length ∧ size = text.length ∧ max = s.maxRulesSize) ∧
    (text.length ≤ s.maxRulesSize.toNat →
      ∃ ls, (∀ ls', IsLines text.toList ls' ↔ ls' = ls) ∧
      ((∃ rules, parse s text = .ok rules) ↔
        ∀ l ∈ ls, IsSignificant s l → ∃ r, Reads s l r) ∧
      (∀ rules, parse s text = .ok rules ↔
        List.Forall₂ (Reads s) (ls.filter (IsSignificant s ·)) rules) ∧
      ∀ fault, parse s text = .error fault ↔ BlamesFirst s 1 ls fault) ∧
    ∀ code : List Char, ∃ ws, MaximalRuns code ws ∧
      ∀ o, Peg.Parses code LineGrammar.line code o ↔ o = some (ws, []) := by
  have herror (fault : Fault) : parseLines s 1 [] (lines text.toList) = .error fault ↔
      BlamesFirst s 1 (lines text.toList) fault := parseLines_eq_error_iff
  have hok (rules : List Rule) : parseLines s 1 [] (lines text.toList) = .ok rules ↔
      List.Forall₂ (Reads s) ((lines text.toList).filter (IsSignificant s ·)) rules := by
    rw [parseLines_eq_ok_iff]
    simp
  refine ⟨?_, ?_, ?_⟩
  · intro size max
    unfold parse
    split
    · rename_i hlarge
      simp [hlarge, eq_comm]
    · rename_i hsmall
      rw [herror]
      constructor
      · intro h
        exact absurd rfl (h.ne_tooLarge size max)
      · rintro ⟨hlarge, _⟩
        exact absurd hlarge hsmall
  · intro hsmall
    have hparse : parse s text = parseLines s 1 [] (lines text.toList) := if_neg (by omega)
    refine ⟨lines text.toList, fun ls' => isLines_iff.trans eq_comm, ?_, ?_, ?_⟩
    · rw [hparse]
      constructor
      · rintro ⟨rules, h⟩ l hl hsig
        exact exists_reads_of_forall₂ ((hok rules).1 h) l
          (List.mem_filter.2 ⟨hl, by simpa using hsig⟩)
      · intro hreads
        cases h : parseLines s 1 [] (lines text.toList) with
        | ok rules => exact ⟨rules, rfl⟩
        | error fault =>
          obtain ⟨pre, l, post, hsplit, _, hsig, hfails⟩ := (herror fault).1 h
          obtain ⟨r, hr⟩ := hreads l (by simp [hsplit]) hsig
          exact absurd hfails (hr.not_fails fault)
    · rw [hparse]
      exact hok
    · rw [hparse]
      exact herror
  · intro code
    exact ⟨words code, maximalRuns_iff.2 rfl, fun o => LineGrammar.parses_line_iff⟩

/-- A comment and an empty line are counted but not read; the fourth line has two faults, and its
current symbol is looked at first. -/
theorem parse_accepts_line_grammar_up_to_fourth :
    ∃ ls, IsLines "// c\nINIT a HALT b R // d\n\nINIT ab HALT bc L".toList ls ∧
      BlamesFirst {} 1 ls (.symbol 4 .current "ab") := by
  obtain ⟨_, hlines, _⟩ :=
    parse_accepts_line_grammar {} "// c\nINIT a HALT b R // d\n\nINIT ab HALT bc L"
  obtain ⟨ls, hls, _, _, herror⟩ := hlines (by decide +kernel)
  exact ⟨ls, (hls ls).2 rfl, (herror _).1 (by decide +kernel)⟩

end TapeMachine.Rule
