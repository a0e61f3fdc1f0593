import Mathlib.Data.List.Chain
import TapeMachine.Json.Token
import TapeMachine.Proofs.Json.Number
import TapeMachine.Proofs.Json.Piece

/-!
# The tokens of JSON

How a token is written (`Json.WritesToken`), and a sequence of tokens with blanks anywhere between
them (`Json.WritesTokens`). `Json.tokens?` finds the tokens of every text that is written so, as
long as no two scalars follow each other without a sign between them
(`Json.tokens?_of_writesTokens`): of `12` it would make one number.
-/

namespace TapeMachine.Json

/-- A token as it is written. -/
inductive WritesToken : Token → List Char → Prop where
  | openArray : WritesToken .openArray ['[']
  | closeArray : WritesToken .closeArray [']']
  | openObject : WritesToken .openObject ['\x7b']
  | closeObject : WritesToken .closeObject ['\x7d']
  | comma : WritesToken .comma [',']
  | colon : WritesToken .colon [':']
  | nullName : WritesToken (.scalar null) ['n', 'u', 'l', 'l']
  | trueName : WritesToken (.scalar (bool true)) ['t', 'r', 'u', 'e']
  | falseName : WritesToken (.scalar (bool false)) ['f', 'a', 'l', 's', 'e']
  | number {literal} : IsNumber literal →
    WritesToken (.scalar (number (String.ofList literal))) literal
  | string {body value} : IsBody body value →
    WritesToken (.scalar (string value)) ('"' :: (body ++ ['"']))

/-- Tokens as they are written one after the other, with blanks before, between and after them. -/
inductive WritesTokens : List Token → List Char → Prop where
  | nil {blanks} : (∀ c ∈ blanks, isBlank c = true) → WritesTokens [] blanks
  | cons {blanks t cs ts rest} : (∀ c ∈ blanks, isBlank c = true) → WritesToken t cs →
    WritesTokens ts rest →
      WritesTokens (t :: ts) (blanks ++ (cs ++ rest))

/-- Whether a token is a value by itself. -/
def Token.isScalar : Token → Bool
  | scalar _ => true
  | _ => false

/-- No two scalars follow each other. -/
def ScalarsApart (ts : List Token) : Prop :=
  ts.IsChain fun t u => t.isScalar = false ∨ u.isScalar = false

variable {t : Token} {ts seen : List Token} {cs rest literal blanks : List Char}

/-! ## One token -/

theorem IsNumber.exists_cons (h : IsNumber literal) :
    ∃ c cs, literal = c :: cs ∧ (c = '-' ∨ c.isDigit = true) := by
  obtain h | ⟨unsigned, _, rfl⟩ := h
  · obtain ⟨c, cs, rfl, hc⟩ := h.exists_cons
    exact ⟨c, cs, rfl, .inr hc⟩
  · exact ⟨'-', unsigned, rfl, .inl rfl⟩

/-- No other token begins as a number does. -/
theorem takeToken?_number {c : Char} (hc : c = '-' ∨ c.isDigit = true) :
    takeToken? (c :: cs) =
      (takeNumber? (c :: cs)).map fun p => (.scalar (number (String.ofList p.1)), p.2) := by
  unfold takeToken?
  split
  all_goals first
    | rfl
    | (rename_i heq
       cases heq
       simp at hc)

/-- A token is taken off a text, a scalar as long as no number can go on behind it. -/
theorem takeToken?_append (h : WritesToken t cs) (hstop : t.isScalar = true → StopsNumber rest) :
    takeToken? (cs ++ rest) = some (t, rest) := by
  cases h with
  | number h =>
    obtain ⟨c, cs, rfl, hc⟩ := h.exists_cons
    rw [List.cons_append, takeToken?_number hc, ← List.cons_append,
      takeNumber?_append h (hstop rfl)]
    rfl
  | @string body value h =>
    obtain ⟨pieces, hpieces, hvalue⟩ := isBody_iff.1 h
    have hread := readPieces_append hpieces [] rest
    simp only [List.cons_append, List.append_assoc, List.nil_append, takeToken?, hread,
      Option.map_some, List.reverse_nil, hvalue]
  | _ => rfl

theorem writesToken_of_takeToken? (h : takeToken? cs = some (t, rest)) :
    ∃ written, WritesToken t written ∧ cs = written ++ rest := by
  unfold takeToken? at h
  split at h
  case h_7 =>
    obtain ⟨⟨pieces, rest'⟩, hread, hp⟩ := Option.map_eq_some_iff.1 h
    cases hp
    obtain ⟨_, body, hpieces, rfl, rfl⟩ := writesPieces_of_readPieces hread
    exact ⟨_, .string (isBody_iff.2 ⟨_, hpieces, rfl⟩), by simp⟩
  case h_11 =>
    obtain ⟨⟨literal, rest'⟩, htake, hp⟩ := Option.map_eq_some_iff.1 h
    cases hp
    obtain ⟨hnumber, rfl⟩ := isNumber_of_takeNumber? htake
    exact ⟨_, .number hnumber, rfl⟩
  all_goals
    cases h
    exact ⟨_, by constructor, rfl⟩

/-! ## What a token begins with -/

theorem WritesToken.exists_cons (h : WritesToken t cs) :
    ∃ c rest, cs = c :: rest ∧ isBlank c = false := by
  cases h with
  | number h =>
    obtain ⟨c, cs, rfl, rfl | hc⟩ := h.exists_cons
    · exact ⟨_, _, rfl, rfl⟩
    · refine ⟨c, cs, rfl, Bool.eq_false_iff.2 fun hblank => ?_⟩
      simp only [isBlank, Bool.or_eq_true, decide_eq_true_eq] at hblank
      obtain ((rfl | rfl) | rfl) | rfl := hblank <;> cases hc
  | _ => exact ⟨_, _, rfl, rfl⟩

/-- A number ends before each of the six signs. -/
theorem WritesToken.stopsNumber (h : WritesToken t cs) (hsign : t.isScalar = false)
    (rest : List Char) :
    StopsNumber (cs ++ rest) := by
  intro c hc
  cases h with
  | nullName | trueName | falseName | number | string => cases hsign
  | _ => cases hc; decide

theorem stopsNumber_of_blank {c : Char} (h : isBlank c = true) : StopsNumber (c :: rest) := by
  rintro _ ⟨⟩
  simp only [isBlank, Bool.or_eq_true, decide_eq_true_eq] at h
  obtain ((rfl | rfl) | rfl) | rfl := h <;> decide

theorem WritesTokens.stopsNumber (h : WritesTokens ts rest)
    (hsign : ∀ t, ts.head? = some t → t.isScalar = false) : StopsNumber rest := by
  cases h with
  | nil hblanks =>
    cases rest with
    | nil => nofun
    | cons c rest => exact stopsNumber_of_blank (hblanks c List.mem_cons_self)
  | @cons blanks t cs ts rest hblanks ht _ =>
    cases blanks with
    | nil => exact ht.stopsNumber (hsign t rfl) rest
    | cons c blanks => exact stopsNumber_of_blank (hblanks c List.mem_cons_self)

/-! ## Sequences of tokens -/

theorem tokensFrom?_nil : tokensFrom? seen [] = some seen.reverse := by
  rw [tokensFrom?]

theorem tokensFrom?_blank {c : Char} (h : isBlank c = true) :
    tokensFrom? seen (c :: cs) = tokensFrom? seen cs := by
  rw [tokensFrom?, if_pos h]

theorem tokensFrom?_blanks (h : ∀ c ∈ blanks, isBlank c = true) :
    tokensFrom? seen (blanks ++ cs) = tokensFrom? seen cs := by
  induction blanks with
  | nil => rfl
  | cons c blanks ih =>
    rw [List.cons_append, tokensFrom?_blank (h c List.mem_cons_self)]
    exact ih fun d hd => h d (List.mem_cons_of_mem _ hd)

theorem tokensFrom?_token (h : WritesToken t cs) (hstop : t.isScalar = true → StopsNumber rest) :
    tokensFrom? seen (cs ++ rest) = tokensFrom? (t :: seen) rest := by
  have htake := takeToken?_append h hstop
  obtain ⟨c, cs, rfl, hc⟩ := h.exists_cons
  rw [List.cons_append] at htake ⊢
  rw [tokensFrom?, if_neg (by simp [hc])]
  split
  · rename_i heq
    rw [htake] at heq
    cases heq
    rfl
  · rename_i heq
    rw [htake] at heq
    cases heq

theorem tokensFrom?_of_writesTokens (h : WritesTokens ts cs) (hapart : ScalarsApart ts)
    (seen : List Token) :
    tokensFrom? seen cs = some (seen.reverse ++ ts) := by
  induction h generalizing seen with
  | @nil blanks hblanks =>
    rw [← blanks.append_nil, tokensFrom?_blanks hblanks, tokensFrom?_nil, List.append_nil]
  | @cons blanks t cs ts rest hblanks ht hts ih =>
    -- What follows a scalar begins with a blank or a sign, since the next token is no scalar.
    have hstop : t.isScalar = true → StopsNumber rest := by
      intro hscalar
      refine hts.stopsNumber fun u hu => ?_
      have hnext := List.isChain_cons.1 hapart |>.1 u hu
      exact hnext.resolve_left (by simp [hscalar])
    rw [tokensFrom?_blanks hblanks, tokensFrom?_token ht hstop, ih (List.isChain_cons.1 hapart).2]
    simp

/-- The tokens of a text are found. -/
theorem tokens?_of_writesTokens (h : WritesTokens ts cs) (hapart : ScalarsApart ts) :
    tokens? cs = some ts :=
  tokensFrom?_of_writesTokens h hapart []

theorem WritesToken.cons (h : WritesToken t cs) (hts : WritesTokens ts rest) :
    WritesTokens (t :: ts) (cs ++ rest) := by
  rw [← List.nil_append (cs ++ rest)]
  exact .cons (by simp) h hts

theorem WritesTokens.blank_cons {c : Char} (hc : isBlank c = true) (h : WritesTokens ts cs) :
    WritesTokens ts (c :: cs) := by
  cases h with
  | nil hblanks => exact .nil (List.forall_mem_cons.2 ⟨hc, hblanks⟩)
  | cons hblanks ht hts =>
    rw [← List.cons_append]
    exact .cons (List.forall_mem_cons.2 ⟨hc, hblanks⟩) ht hts

theorem writesTokens_of_tokensFrom? (h : tokensFrom? seen cs = some ts) :
    ∃ new, ts = seen.reverse ++ new ∧ WritesTokens new cs := by
  fun_induction tokensFrom? seen cs with
  | case1 seen =>
    cases h
    exact ⟨[], by simp, .nil (by simp)⟩
  | case2 seen c cs hc ih =>
    obtain ⟨new, rfl, hnew⟩ := ih h
    exact ⟨new, rfl, hnew.blank_cons hc⟩
  | case3 seen c cs hc t rest htake ih =>
    obtain ⟨new, rfl, hnew⟩ := ih h
    obtain ⟨written, ht, hcs⟩ := writesToken_of_takeToken? htake
    refine ⟨t :: new, by simp, ?_⟩
    rw [hcs]
    exact ht.cons hnew
  | case4 => cases h

/-- Nothing else is taken for tokens. -/
theorem writesTokens_of_tokens? (h : tokens? cs = some ts) : WritesTokens ts cs := by
  obtain ⟨new, rfl, hnew⟩ := writesTokens_of_tokensFrom? h
  exact hnew

end TapeMachine.Json
