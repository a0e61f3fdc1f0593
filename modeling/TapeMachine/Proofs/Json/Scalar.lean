import TapeMachine.Proofs.Json.Writer
import TapeMachine.Proofs.Text.Numeral

/-!
# Counts, texts and symbols in JSON

Each of them is read from its own form and from no other one. For counts this rests on the grammar
of numbers, which leaves one way to write an integer (`Json.toDigits_ofDigitChars`).
-/

namespace TapeMachine.Json

variable {v : Json} {t : Token} {cs : List Char} {c : Char} {n : Nat}

/-! ## Integers -/

theorem digitChar_of_isDigit (h : c.isDigit = true) :
    (c.toNat - 48).digitChar = c ∧ c.toNat - 48 < 10 := by
  have hrange := Char.isDigit_iff_toNat.1 h
  simp only [Char.reduceToNat] at hrange
  have hlt : c.toNat - 48 < 10 := by omega
  refine ⟨Char.toNat_inj.1 ?_, hlt⟩
  rw [Nat.toNat_digitChar_of_lt_ten hlt]
  omega

theorem toDigits_append (hn : 0 < n) (h : ∀ c ∈ cs, c.isDigit = true) :
    Nat.toDigits 10 n ++ cs = Nat.toDigits 10 (Nat.ofDigitChars 10 cs n) := by
  induction cs generalizing n with
  | nil => rw [List.append_nil, Nat.ofDigitChars_nil]
  | cons c cs ih =>
    obtain ⟨hchar, hlt⟩ := digitChar_of_isDigit (h c List.mem_cons_self)
    have hstep : Nat.toDigits 10 n ++ [c] = Nat.toDigits 10 (10 * n + (c.toNat - 48)) := by
      rw [← Nat.toDigits_append_toDigits (by decide) hn hlt, Nat.toDigits_of_lt_base hlt, hchar]
    rw [Nat.ofDigitChars_cons, ← ih (by omega) fun d hd => h d (List.mem_cons_of_mem _ hd)]
    show _ = Nat.toDigits 10 (10 * n + (c.toNat - 48)) ++ cs
    rw [← hstep, List.append_assoc]
    rfl

/-- An integer is written in one way. -/
theorem toDigits_ofDigitChars (h : IsInteger cs) :
    Nat.toDigits 10 (Nat.ofDigitChars 10 cs 0) = cs := by
  obtain rfl | ⟨hdigits, hzero⟩ := h
  · rfl
  · obtain ⟨c, cs, rfl, hc⟩ := hdigits.exists_cons
    obtain ⟨hchar, hlt⟩ := digitChar_of_isDigit hc
    have hpos : 0 < c.toNat - 48 := by
      refine Nat.pos_of_ne_zero fun hdigit => hzero ?_
      rw [hdigit] at hchar
      rw [← hchar]
      rfl
    have hrest := toDigits_append hpos fun d hd => hdigits.2 d (List.mem_cons_of_mem _ hd)
    rw [Nat.toDigits_of_lt_base hlt, hchar] at hrest
    rw [Nat.ofDigitChars_cons, Nat.mul_zero, Nat.zero_add]
    exact hrest.symm

theorem head?_toDigits (hn : 0 < n) : (Nat.toDigits 10 n).head? ≠ some '0' := by
  induction n using Nat.strongRecOn with
  | ind n ih =>
    by_cases hlt : n < 10
    · rw [Nat.toDigits_of_lt_base hlt, List.head?_cons, ne_eq, Option.some.injEq]
      intro hzero
      have := congrArg Char.toNat hzero
      rw [Nat.toNat_digitChar_of_lt_ten hlt] at this
      simp at this
      omega
    · rw [Nat.toDigits_of_base_le (by decide) (by omega),
        List.head?_append_of_ne_nil _ Nat.toDigits_ne_nil]
      exact ih (n / 10) (by omega) (by omega)

theorem isInteger_toDigits (n : Nat) : IsInteger (Nat.toDigits 10 n) := by
  obtain rfl | hn := Nat.eq_zero_or_pos n
  · exact .inl rfl
  · refine .inr ⟨⟨Nat.toDigits_ne_nil, fun c hc => ?_⟩, head?_toDigits hn⟩
    exact Nat.isDigit_of_mem_toDigits (by decide) (by decide) hc

/-- A number of digits alone is an integer. -/
theorem IsNumber.isInteger (h : IsNumber cs) (hdigits : ∀ c ∈ cs, c.isDigit = true) :
    IsInteger cs := by
  obtain ⟨integer, fraction, exponent, hinteger, hfraction, hexponent, rfl⟩ | ⟨unsigned, _, rfl⟩ :=
    h
  · obtain rfl | ⟨digits, _, rfl⟩ := hfraction
    · obtain rfl | ⟨e, sign, digits, he, _, _, rfl⟩ := hexponent
      · rwa [List.append_nil, List.append_nil]
      · have hletter := hdigits e (by simp)
        obtain rfl | rfl := he <;> cases hletter
    · have hpoint := hdigits '.' (by simp)
      cases hpoint
  · have hsign := hdigits '-' List.mem_cons_self
    cases hsign

/-! ## Counts -/

theorem toList_toString (n : Nat) : (toString n).toList = Nat.toDigits 10 n :=
  Nat.toList_repr

theorem writable_count (n : UInt64) : Writable (count n) := by
  rw [count, writable_number_iff, toList_toString]
  exact .inl ⟨_, [], [], isInteger_toDigits n.toNat, .inl rfl, .inl rfl, by simp⟩

@[simp]
theorem count?_count (n : UInt64) : count? (count n) = some n := by
  rw [count, count?, toList_toString, Text.parseDigits?_eq_some_iff]
  refine ⟨Nat.toDigits_ne_nil, fun c hc => ?_, Nat.ofDigitChars_ten_toDigits⟩
  exact Nat.isDigit_of_mem_toDigits (by decide) (by decide) hc

/-- A value of a document is read as a count only if it is that count. -/
theorem count?_eq_some_iff (h : Writable v) {n : UInt64} : count? v = some n ↔ v = count n := by
  constructor
  · intro hcount
    unfold count? at hcount
    split at hcount
    · rename_i literal
      obtain ⟨_, hdigits, hvalue⟩ := Text.parseDigits?_eq_some_iff.1 hcount
      have hlist := toDigits_ofDigitChars ((writable_number_iff.1 h).isInteger hdigits)
      rw [hvalue, ← toList_toString, String.toList_inj] at hlist
      rw [count, hlist]
    · cases hcount
  · rintro rfl
    exact count?_count n

theorem count_inj {m n : UInt64} : count m = count n ↔ m = n := by
  constructor
  · intro h
    have hread := congrArg count? h
    rw [count?_count, count?_count] at hread
    exact Option.some.inj hread
  · rintro rfl
    rfl

/-! ## Texts and symbols -/

theorem writable_text (s : String) : Writable (text s) :=
  writable_string _

theorem writable_symbol (c : Char) : Writable (symbol c) :=
  writable_string _

@[simp]
theorem text?_text (s : String) : text? (text s) = some s := rfl

theorem text?_eq_some_iff {s : String} : text? v = some s ↔ v = text s := by
  constructor
  · intro h
    unfold text? at h
    split at h
    · rw [h]
      rfl
    · cases h
  · rintro rfl
    rfl

theorem text_inj {s t : String} : text s = text t ↔ s = t := by
  simp [text]

@[simp]
theorem symbol?_symbol (c : Char) : symbol? (symbol c) = some c := by
  simp [symbol, symbol?]

theorem symbol?_eq_some_iff : symbol? v = some c ↔ v = symbol c := by
  constructor
  · intro h
    unfold symbol? at h
    split at h
    · rename_i value
      split at h
      · rename_i hvalue
        cases h
        rw [symbol, ← String.ofList_toList (s := value), hvalue]
        rfl
      · cases h
    · cases h
  · rintro rfl
    exact symbol?_symbol c

theorem symbol_inj {d : Char} : symbol c = symbol d ↔ c = d := by
  rw [← symbol?_eq_some_iff, symbol?_symbol, Option.some.injEq]

end TapeMachine.Json
