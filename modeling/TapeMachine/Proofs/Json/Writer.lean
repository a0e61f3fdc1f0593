import TapeMachine.Json.Writer
import TapeMachine.Proofs.Json.Document

/-!
# Writing documents of JSON

`Json.render` writes a document of every value that has one (`Json.document_render`). That is every
value whose numbers are numbers of the grammar: a string can always be written.
-/

namespace TapeMachine.Json

/-- Some characters spell the token. -/
def Token.Writable (t : Token) : Prop :=
  ∃ cs, WritesToken t cs

/-- Every token of the value can be written. -/
def Writable (v : Json) : Prop :=
  ∀ t ∈ tokensOf v, t.Writable

/-- The characters that a token is written with. -/
def tokenChars : Token → List Char
  | .openArray => ['[']
  | .closeArray => [']']
  | .openObject => ['\x7b']
  | .closeObject => ['\x7d']
  | .comma => [',']
  | .colon => [':']
  | .scalar v => renderChars v

variable {v : Json} {t : Token} {ts : List Token}

/-! ## What is written is tokens -/

theorem renderItems_cons {items : List Json} (h : items ≠ []) :
    renderItems (v :: items) = renderChars v ++ ',' :: renderItems items := by
  rw [renderItems]
  exact h

theorem renderMembers_cons {m : Option String × Json}
    {members : List (Option String × Json)} (h : members ≠ []) :
    renderMembers (m :: members) = renderString m.1 ++ ':' :: renderChars m.2 ++ ',' ::
      renderMembers members := by
  rw [renderMembers]
  exact h

theorem renderItems_eq {items : List Json}
    (h : ∀ v ∈ items, renderChars v = (tokensOf v).flatMap tokenChars) :
    renderItems items = (itemTokens items).flatMap tokenChars := by
  induction items with
  | nil => rfl
  | cons v items ih =>
    have hv := h v List.mem_cons_self
    obtain rfl | hne := eq_or_ne items []
    · rw [renderItems, itemTokens, hv]
    · rw [renderItems_cons hne, itemTokens_cons hne, hv,
        ih fun u hu => h u (List.mem_cons_of_mem _ hu)]
      simp [itemThenComma, tokenChars]

theorem renderMembers_eq {members : List (Option String × Json)}
    (h : ∀ m ∈ members, renderChars m.2 = (tokensOf m.2).flatMap tokenChars) :
    renderMembers members = (memberTokens members).flatMap tokenChars := by
  induction members with
  | nil => rfl
  | cons m members ih =>
    have hv := h m List.mem_cons_self
    obtain rfl | hne := eq_or_ne members []
    · rw [renderMembers, memberTokens, hv]
      simp [tokenChars, renderChars]
    · rw [renderMembers_cons hne, memberTokens_cons hne, hv,
        ih fun u hu => h u (List.mem_cons_of_mem _ hu)]
      simp [memberThenComma, tokenChars, renderChars]

theorem renderChars_eq (v : Json) : renderChars v = (tokensOf v).flatMap tokenChars := by
  induction v using ind with
  | scalar v h => simp [tokensOf_scalar h, tokenChars]
  | array items ih =>
    rw [renderChars, tokensOf, renderItems_eq ih]
    simp [tokenChars]
  | object members ih =>
    rw [renderChars, tokensOf, renderMembers_eq ih]
    simp [tokenChars]

/-! ## Strings -/

/-- The characters of a piece that stands for `c`. -/
def WritesChar (c : Char) (written : List Char) : Prop :=
  ∃ p, WritesPiece p written ∧ ∀ ps cs, Decodes ps cs → Decodes (p :: ps) (c :: cs)

theorem writesChar_escape {e c : Char} (h : IsEscape e c) : WritesChar c ['\\', e] :=
  ⟨_, .escape h, fun _ _ => .plain⟩

theorem writesChar_escapeChar (c : Char) : WritesChar c (escapeChar c) := by
  fun_cases escapeChar c with
  | case1 h =>
    simp only [Bool.or_eq_true, decide_eq_true_eq] at h
    obtain rfl | rfl := h
    · exact writesChar_escape .quote
    · exact writesChar_escape .backslash
  | case2 | case3 | case4 | case5 | case6 =>
    subst c
    exact writesChar_escape (by constructor)
  | case7 _ _ _ _ _ _ hcontrol =>
    -- The unit of four digits is the code point.
    have hzero : IsHexDigit '0' 0 := ⟨by decide, .inl rfl⟩
    have hhigh : IsHexDigit (c.toNat / 16).digitChar (c.toNat / 16) := ⟨by omega, .inl rfl⟩
    have hlow : IsHexDigit (c.toNat % 16).digitChar (c.toNat % 16) := ⟨by omega, .inl rfl⟩
    have hpiece := WritesPiece.codeUnit hzero hzero hhigh hlow
    have hvalue : ((0 * 16 + 0) * 16 + c.toNat / 16) * 16 + c.toNat % 16 = c.toNat := by omega
    rw [hvalue] at hpiece
    exact ⟨_, hpiece, fun _ _ => .codeUnit (by omega)⟩
  | case8 h _ _ _ _ _ hcontrol =>
    simp only [Bool.or_eq_true, decide_eq_true_eq, not_or] at h
    exact ⟨_, .plain (by omega) h.1 h.2, fun _ _ => .plain⟩

theorem exists_pieces (text : List Char) :
    ∃ pieces, WritesPieces pieces (text.flatMap escapeChar) ∧ Decodes pieces text := by
  induction text with
  | nil => exact ⟨[], .nil, .nil⟩
  | cons c text ih =>
    obtain ⟨pieces, hpieces, hdecodes⟩ := ih
    obtain ⟨p, hp, hc⟩ := writesChar_escapeChar c
    exact ⟨p :: pieces, .cons hp hpieces, hc _ _ hdecodes⟩

/-- A string is written between quotation marks, whether it is a text or not. -/
theorem exists_body (value : Option String) :
    ∃ body, IsBody body value ∧ renderString value = '"' :: (body ++ ['"']) := by
  cases value with
  | none =>
    have hdigit (n : Nat) (h : n < 16) : IsHexDigit n.digitChar n := ⟨h, .inl rfl⟩
    have hpiece :=
      WritesPiece.codeUnit (hdigit 13 (by decide)) (hdigit 8 (by decide)) (hdigit 0 (by decide))
      (hdigit 0 (by decide))
    exact ⟨_, isBody_iff.2 ⟨_, .cons hpiece .nil, rfl⟩, rfl⟩
  | some text =>
    obtain ⟨pieces, hpieces, hdecodes⟩ := exists_pieces text.toList
    refine ⟨_, isBody_iff.2 ⟨pieces, hpieces, ?_⟩, rfl⟩
    have hjoin : joinPieces [] pieces = some text.toList :=
      (joinPieces_eq_some_iff hpieces.inRange).2 ⟨_, rfl, hdecodes⟩
    rw [ofPieces, hjoin, Option.map_some, String.ofList_toList]

/-! ## Documents -/

theorem writesToken_tokenChars {cs : List Char} (h : WritesToken t cs) :
    WritesToken t (tokenChars t) := by
  cases h with
  | number h =>
    rw [tokenChars, renderChars, String.toList_ofList]
    exact .number h
  | @string _ value _ =>
    obtain ⟨body, hbody, heq⟩ := exists_body value
    rw [tokenChars, renderChars, heq]
    exact .string hbody
  | _ => constructor

theorem writesTokens_flatMap (h : ∀ t ∈ ts, t.Writable) :
    WritesTokens ts (ts.flatMap tokenChars) := by
  induction ts with
  | nil => exact .nil (by simp)
  | cons t ts ih =>
    obtain ⟨cs, ht⟩ := h t List.mem_cons_self
    exact (writesToken_tokenChars ht).cons (ih fun u hu => h u (List.mem_cons_of_mem _ hu))

/-- What is written is a document of the value. -/
theorem document_render (h : Writable v) : Document v.render v := by
  rw [Document, render, String.toList_ofList, renderChars_eq]
  exact writesTokens_flatMap h

theorem WritesTokens.writable {cs : List Char} (h : WritesTokens ts cs) : ∀ t ∈ ts, t.Writable := by
  induction h with
  | nil => simp
  | cons _ ht _ ih => exact List.forall_mem_cons.2 ⟨⟨_, ht⟩, ih⟩

theorem Document.writable {text : String} (h : Document text v) : Writable v :=
  WritesTokens.writable h

/-- A value is read back from what is written. -/
theorem parse?_render (h : Writable v) : parse? v.render = some v :=
  parse?_eq_some_iff.2 (document_render h)

/-! ## Which values can be written -/

theorem writable_iff_of_isScalar (h : IsScalar v) : Writable v ↔ (Token.scalar v).Writable := by
  rw [Writable, tokensOf_scalar h, List.forall_mem_singleton]

theorem writable_string (value : Option String) : Writable (string value) := by
  obtain ⟨body, hbody, _⟩ := exists_body value
  exact (writable_iff_of_isScalar (v := string value) trivial).2 ⟨_, .string hbody⟩

theorem writable_bool (value : Bool) : Writable (bool value) := by
  refine (writable_iff_of_isScalar (v := bool value) trivial).2 ?_
  cases value with
  | true => exact ⟨_, .trueName⟩
  | false => exact ⟨_, .falseName⟩

theorem writable_number_iff {literal : String} :
    Writable (number literal) ↔ IsNumber literal.toList := by
  rw [writable_iff_of_isScalar (v := number literal) trivial]
  constructor
  · rintro ⟨cs, h⟩
    cases h with
    | number h => rwa [String.toList_ofList]
  · intro h
    have hwrites := WritesToken.number h
    rw [String.ofList_toList] at hwrites
    exact ⟨_, hwrites⟩

theorem forall_memberTokens_iff {members : List (Option String × Json)} :
    (∀ t ∈ memberTokens members, t.Writable) ↔ ∀ m ∈ members, Writable m.2 := by
  have hname (name : Option String) : (Token.scalar (string name)).Writable :=
    (writable_iff_of_isScalar (v := string name) trivial).1 (writable_string name)
  have hcolon : Token.colon.Writable := ⟨_, .colon⟩
  have hcomma : Token.comma.Writable := ⟨_, .comma⟩
  induction members with
  | nil => simp [memberTokens]
  | cons m members ih =>
    obtain rfl | hne := eq_or_ne members []
    · rw [memberTokens, List.forall_mem_singleton]
      simp [hname, hcolon, Writable]
    · have hmember : (∀ t ∈ memberThenComma m, t.Writable) ↔ Writable m.2 := by
        simp [memberThenComma, hname, hcolon, hcomma, Writable, or_imp, forall_and]
      rw [memberTokens_cons hne, List.forall_mem_append, List.forall_mem_cons, hmember]
      exact and_congr_right fun _ => ih

theorem writable_object_iff {members : List (Option String × Json)} :
    Writable (object members) ↔ ∀ m ∈ members, Writable m.2 := by
  have hopen : Token.openObject.Writable := ⟨_, .openObject⟩
  have hclose : Token.closeObject.Writable := ⟨_, .closeObject⟩
  rw [← forall_memberTokens_iff, Writable, tokensOf, List.forall_mem_cons, List.forall_mem_append,
    List.forall_mem_singleton]
  exact ⟨fun h => h.2.1, fun h => ⟨hopen, h, hclose⟩⟩

end TapeMachine.Json
