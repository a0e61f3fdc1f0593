import Mathlib.Tactic.IntervalCases
import TapeMachine.Json.Piece

/-!
# The strings of JSON

What stands between the quotation marks of a string (`Json.WritesPieces`), and which text its pieces
are (`Json.Decodes`): an escape of four digits names a unit of UTF-16, and two units that make a
surrogate pair are one character. `Json.readPieces` finds the pieces up to the closing mark
(`Json.readPieces_append`), and `Json.joinPieces` the text, if there is one
(`Json.joinPieces_eq_some_iff`).
-/

namespace TapeMachine.Json

/-- The character `c` is a digit of base 16 with the value `n`, in upper or lower case. -/
def IsHexDigit (c : Char) (n : Nat) : Prop :=
  n < 16 ∧ (c = n.digitChar ∨ c = n.digitChar.toUpper)

/-- What a backslash and a letter stand for. -/
inductive IsEscape : Char → Char → Prop where
  | quote : IsEscape '"' '"'
  | backslash : IsEscape '\\' '\\'
  | slash : IsEscape '/' '/'
  | backspace : IsEscape 'b' '\x08'
  | formFeed : IsEscape 'f' '\x0c'
  | lineFeed : IsEscape 'n' '\n'
  | carriageReturn : IsEscape 'r' '\r'
  | tab : IsEscape 't' '\t'

/-- A piece of a string as it is written. -/
inductive WritesPiece : Piece → List Char → Prop where
  | plain {c} : 0x20 ≤ c.toNat → c ≠ '"' → c ≠ '\\' → WritesPiece (.plain c) [c]
  | escape {e c} : IsEscape e c → WritesPiece (.plain c) ['\\', e]
  | codeUnit {a b c d x y z w} : IsHexDigit a x → IsHexDigit b y → IsHexDigit c z → IsHexDigit d w →
      WritesPiece (.codeUnit (((x * 16 + y) * 16 + z) * 16 + w)) ['\\', 'u', a, b, c, d]

/-- Pieces as they are written one after the other. -/
inductive WritesPieces : List Piece → List Char → Prop where
  | nil : WritesPieces [] []
  | cons {p ps cs rest} : WritesPiece p cs → WritesPieces ps rest →
    WritesPieces (p :: ps) (cs ++ rest)

/-- The text of pieces. -/
inductive Decodes : List Piece → List Char → Prop where
  | nil : Decodes [] []
  | plain {c ps cs} : Decodes ps cs → Decodes (.plain c :: ps) (c :: cs)
  | codeUnit {c ps cs} : c.toNat < 0x10000 → Decodes ps cs →
    Decodes (.codeUnit c.toNat :: ps) (c :: cs)
  | pair {c high low ps cs} : 0xD800 ≤ high → high < 0xDC00 → 0xDC00 ≤ low → low < 0xE000 →
      c.toNat = 0x10000 + (high - 0xD800) * 0x400 + (low - 0xDC00) → Decodes ps cs →
      Decodes (.codeUnit high :: .codeUnit low :: ps) (c :: cs)

/-- What stands between the quotation marks of a string with this value. -/
def IsBody (body : List Char) (value : Option String) : Prop :=
  ∃ pieces, WritesPieces pieces body ∧ ∀ text, value = some text ↔ Decodes pieces text.toList

variable {seen pieces : List Piece} {p : Piece} {cs body rest : List Char}

/-! ## Digits and escapes -/

theorem isHexDigit_ofNat {k n : Nat}
    (h : hexValue? (Char.ofNat k) = some n) (hlow : 48 ≤ k) (hhigh : k ≤ 102) :
    IsHexDigit (Char.ofNat k) n := by
  interval_cases k
  all_goals first | (cases h; done) | (obtain rfl := Option.some.inj h; unfold IsHexDigit; decide)

theorem hexValue?_eq_some_iff {c : Char} {n : Nat} : hexValue? c = some n ↔ IsHexDigit c n := by
  constructor
  · intro h
    have hrange : 48 ≤ c.toNat ∧ c.toNat ≤ 102 := by
      unfold hexValue? at h
      simp only [Char.isDigit_iff_toNat, Char.le_def, UInt32.le_iff_toNat_le, Char.toNat_val,
        Bool.and_eq_true, decide_eq_true_eq, Char.reduceToNat] at h
      split at h
      · omega
      · split at h
        · omega
        · split at h
          · omega
          · cases h
    rw [← Char.ofNat_toNat c] at h ⊢
    exact isHexDigit_ofNat h hrange.1 hrange.2
  · rintro ⟨hn, rfl | rfl⟩
    · interval_cases n <;> rfl
    · interval_cases n <;> rfl

theorem escaped?_eq_some_iff {e : Char} {p : Piece} :
    escaped? e = some p ↔ ∃ c, IsEscape e c ∧ p = .plain c := by
  constructor
  · intro h
    unfold escaped? at h
    split at h
    · rename_i he
      simp only [Bool.or_eq_true, decide_eq_true_eq] at he
      obtain rfl := Option.some.inj h
      obtain (rfl | rfl) | rfl := he
      · exact ⟨_, .quote, rfl⟩
      · exact ⟨_, .backslash, rfl⟩
      · exact ⟨_, .slash, rfl⟩
    · repeat' split at h
      all_goals try cases h
      all_goals
        subst e
        exact ⟨_, by constructor, rfl⟩
  · rintro ⟨c, h, rfl⟩
    cases h <;> rfl

/-! ## Pieces are read as they are written -/

theorem readPieces_piece (h : WritesPiece p cs) (seen : List Piece) (rest : List Char) :
    readPieces seen (cs ++ rest) = readPieces (p :: seen) rest := by
  cases h with
  | @plain c hlow hquote hbackslash =>
    -- All other cases begin with a quotation mark or a backslash.
    rw [List.singleton_append]
    conv => lhs; unfold readPieces
    split
    · rename_i heq
      cases heq
    · rename_i heq
      cases heq
      exact absurd rfl hquote
    · rename_i heq
      cases heq
      exact absurd rfl hbackslash
    · rename_i heq
      cases heq
      exact absurd rfl hbackslash
    · rename_i heq
      cases heq
      rw [if_neg (by simp [hbackslash]; omega)]
  | escape he =>
    have hpiece := escaped?_eq_some_iff.2 ⟨_, he, rfl⟩
    cases he <;> simp [readPieces, hpiece]
  | codeUnit ha hb hc hd =>
    simp only [List.cons_append, List.nil_append, readPieces, codeUnit?, hexValue?_eq_some_iff.2 ha,
      hexValue?_eq_some_iff.2 hb, hexValue?_eq_some_iff.2 hc, hexValue?_eq_some_iff.2 hd]
    rfl

theorem readPieces_append (h : WritesPieces pieces body) (seen : List Piece) (rest : List Char) :
    readPieces seen (body ++ '"' :: rest) = some (seen.reverse ++ pieces, rest) := by
  induction h generalizing seen with
  | nil => simp [readPieces]
  | cons hp _ ih =>
    rw [List.append_assoc, readPieces_piece hp, ih, List.reverse_cons, List.append_assoc]; rfl

theorem writesPieces_of_readPieces (h : readPieces seen cs = some (pieces, rest)) :
    ∃ new body, WritesPieces new body ∧ pieces = seen.reverse ++ new ∧
      cs = body ++ '"' :: rest := by
  fun_induction readPieces seen cs with
  | case1 => cases h
  | case2 seen rest =>
    cases h
    exact ⟨[], [], .nil, by simp, rfl⟩
  | case3 seen a b c d rest' piece hpiece ih =>
    obtain ⟨new, body, hnew, rfl, rfl⟩ := ih h
    simp only [codeUnit?, Option.bind_eq_bind, Option.bind_eq_some_iff,
      hexValue?_eq_some_iff] at hpiece
    obtain ⟨x, hx, y, hy, z, hz, w, hw, hpiece⟩ := hpiece
    obtain rfl := Option.some.inj hpiece
    exact ⟨_, _, .cons (.codeUnit hx hy hz hw) hnew, by simp, rfl⟩
  | case4 => cases h
  | case5 seen e rest' _ piece hpiece ih =>
    obtain ⟨new, body, hnew, rfl, rfl⟩ := ih h
    obtain ⟨c, hc, rfl⟩ := escaped?_eq_some_iff.1 hpiece
    exact ⟨_, _, .cons (.escape hc) hnew, by simp, rfl⟩
  | case6 => cases h
  | case7 => cases h
  | case8 seen c rest' hquote _ _ hplain ih =>
    obtain ⟨new, body, hnew, rfl, rfl⟩ := ih h
    simp only [Bool.or_eq_true, decide_eq_true_eq, not_or, Nat.not_lt] at hplain
    exact ⟨_, _, .cons (.plain hplain.1 hquote hplain.2) hnew, by simp, rfl⟩

/-! ## The text of pieces -/

/-- The number of a unit has 16 bits. -/
def Piece.InRange : Piece → Prop
  | plain _ => True
  | codeUnit value => value < 0x10000

theorem WritesPieces.inRange (h : WritesPieces pieces body) : ∀ p ∈ pieces, p.InRange := by
  induction h with
  | nil => simp
  | cons hp _ ih =>
    refine List.forall_mem_cons.2 ⟨?_, ih⟩
    cases hp with
    | plain => trivial
    | escape => trivial
    | codeUnit ha hb hc hd =>
      have := ha.1
      have := hb.1
      have := hc.1
      have := hd.1
      show _ < 0x10000
      omega

theorem toNat_ofNat {n : Nat} (h : n.isValidChar) : (Char.ofNat n).toNat = n := by
  rw [Char.ofNat, dif_pos h]
  rfl

section Decodes

variable {text : List Char} {c : Char} {value high low : Nat}

theorem decodes_nil_iff : Decodes [] text ↔ text = [] := by
  constructor
  · rintro ⟨⟩
    rfl
  · rintro rfl
    exact .nil

theorem decodes_plain_iff :
    Decodes (.plain c :: pieces) text ↔ ∃ rest, text = c :: rest ∧ Decodes pieces rest := by
  constructor
  · intro h
    cases h with
    | plain h => exact ⟨_, rfl, h⟩
  · rintro ⟨rest, rfl, h⟩
    exact .plain h

/-- A unit outside of the surrogates is a character. -/
theorem decodes_codeUnit_iff (hrange : value < 0x10000) (hvalue : value < 0xD800 ∨ 0xE000 ≤ value) :
    Decodes (.codeUnit value :: pieces) text ↔
      ∃ rest, text = Char.ofNat value :: rest ∧ Decodes pieces rest := by
  have hvalid : value.isValidChar := by
    unfold Nat.isValidChar
    omega
  constructor
  · intro h
    cases h with
    | codeUnit hc h => exact ⟨_, by rw [Char.ofNat_toNat], h⟩
    | pair hhigh hhigh' => omega
  · rintro ⟨rest, rfl, h⟩
    have hunit := toNat_ofNat hvalid
    have hsmall : (Char.ofNat value).toNat < 0x10000 := by omega
    have hstep := Decodes.codeUnit hsmall h
    rwa [hunit] at hstep

/-- A surrogate pair is one character, and neither half is. -/
theorem decodes_pair_iff (hhigh : 0xD800 ≤ high) (hhigh' : high < 0xDC00) (hlow : 0xDC00 ≤ low)
    (hlow' : low < 0xE000) : Decodes (.codeUnit high :: .codeUnit low :: pieces) text ↔
      ∃ rest, text = Char.ofNat (0x10000 + (high - 0xD800) * 0x400 + (low - 0xDC00)) :: rest ∧
        Decodes pieces rest := by
  constructor
  · intro h
    cases h with
    | @codeUnit c _ _ hc h =>
      have hvalid : c.toNat.isValidChar := c.valid
      unfold Nat.isValidChar at hvalid
      omega
    | pair _ _ _ _ hc h => exact ⟨_, by rw [← hc, Char.ofNat_toNat], h⟩
  · rintro ⟨rest, rfl, h⟩
    exact .pair hhigh hhigh' hlow hlow' (toNat_ofNat (by unfold Nat.isValidChar; omega)) h

/-- A surrogate that does not begin a pair is no character. -/
theorem not_decodes_surrogate (hvalue : 0xD800 ≤ value) (hvalue' : value < 0xE000)
    (hpair : ∀ low rest, pieces = .codeUnit low :: rest → value < 0xDC00 → 0xDC00 ≤ low →
      ¬ low < 0xE000) :
    ¬ Decodes (.codeUnit value :: pieces) text := by
  intro h
  cases h with
  | @codeUnit c _ _ hc h =>
    have hvalid : c.toNat.isValidChar := c.valid
    unfold Nat.isValidChar at hvalid
    omega
  | pair hhigh hhigh' hlow hlow' hc h => exact hpair _ _ rfl hhigh' hlow hlow'

end Decodes

theorem exists_push_iff {seen text : List Char} {c : Char} {P : List Char → Prop} :
    (∃ new, text = (c :: seen).reverse ++ new ∧ P new) ↔
      ∃ new, text = seen.reverse ++ new ∧ ∃ rest, new = c :: rest ∧ P rest := by
  constructor
  · rintro ⟨new, rfl, h⟩
    exact ⟨c :: new, by simp, new, rfl, h⟩
  · rintro ⟨_, rfl, rest, rfl, h⟩
    exact ⟨rest, by simp, h⟩

theorem joinPieces_eq_some_iff {seen text : List Char} (h : ∀ p ∈ pieces, p.InRange) :
    joinPieces seen pieces = some text ↔
      ∃ new, text = seen.reverse ++ new ∧ Decodes pieces new := by
  fun_induction joinPieces seen pieces with
  | case1 seen => simp [decodes_nil_iff, eq_comm]
  | case2 seen c pieces ih =>
    simp only [decodes_plain_iff]
    rw [ih fun p hp => h p (List.mem_cons_of_mem _ hp), exists_push_iff]
  | case3 seen high low pieces hpair ih =>
    simp only [Bool.and_eq_true, decide_eq_true_eq] at hpair
    obtain ⟨⟨⟨hhigh, hhigh'⟩, hlow⟩, hlow'⟩ := hpair
    simp only [decodes_pair_iff hhigh hhigh' hlow hlow']
    rw [ih fun p hp => h p (List.mem_cons_of_mem _ (List.mem_cons_of_mem _ hp)), exists_push_iff]
  | case4 seen high low pieces hpair hsurrogate =>
    simp only [Bool.and_eq_true, decide_eq_true_eq, not_and] at hpair hsurrogate
    have hnone (new : List Char) : ¬ Decodes (.codeUnit high :: .codeUnit low :: pieces) new := by
      refine not_decodes_surrogate hsurrogate.1 hsurrogate.2 ?_
      rintro low' rest heq hhigh' hlow
      cases heq
      exact hpair ⟨⟨hsurrogate.1, hhigh'⟩, hlow⟩
    simp [hnone]
  | case5 seen high low pieces hpair hsurrogate ih =>
    simp only [Bool.and_eq_true, decide_eq_true_eq, not_and, Nat.not_lt] at hsurrogate
    have hrange : high < 0x10000 := h _ List.mem_cons_self
    simp only [decodes_codeUnit_iff hrange (by omega)]
    rw [ih fun p hp => h p (List.mem_cons_of_mem _ hp), exists_push_iff]
  | case6 seen value pieces hnext hsurrogate =>
    simp only [Bool.and_eq_true, decide_eq_true_eq] at hsurrogate
    have hnone (new : List Char) : ¬ Decodes (.codeUnit value :: pieces) new :=
      not_decodes_surrogate hsurrogate.1 hsurrogate.2 fun low rest heq =>
        absurd heq (hnext low rest)
    simp [hnone]
  | case7 seen value pieces hnext hsurrogate ih =>
    simp only [Bool.and_eq_true, decide_eq_true_eq, not_and, Nat.not_lt] at hsurrogate
    have hrange : value < 0x10000 := h _ List.mem_cons_self
    simp only [decodes_codeUnit_iff hrange (by omega)]
    rw [ih fun p hp => h p (List.mem_cons_of_mem _ hp), exists_push_iff]

/-- The value that is read is that of the pieces. -/
theorem isBody_iff {value : Option String} :
    IsBody body value ↔ ∃ pieces, WritesPieces pieces body ∧ ofPieces pieces = string value := by
  refine exists_congr fun pieces => and_congr_right fun hpieces => ?_
  have hjoin (text : String) : (joinPieces [] pieces).map String.ofList = some text ↔
      Decodes pieces text.toList := by
    have hlist : joinPieces [] pieces = some text.toList ↔ _ :=
      joinPieces_eq_some_iff hpieces.inRange
    simp only [List.reverse_nil, List.nil_append, exists_eq_left'] at hlist
    rw [← hlist, Option.map_eq_some_iff]
    constructor
    · rintro ⟨cs, hcs, rfl⟩
      rwa [String.toList_ofList]
    · intro hcs
      exact ⟨_, hcs, String.ofList_toList⟩
  simp only [← hjoin, ofPieces, string.injEq]
  constructor
  · intro h
    refine Option.ext fun text => ?_
    exact (h text).symm
  · rintro rfl text
    exact Iff.rfl

end TapeMachine.Json
