import TapeMachine.Text.Numeral

/-!
# The value of digits

`Text.parseDigits?` gives the number that digits write, as long as it is a 64-bit word
(`Text.parseDigits?_eq_some_iff`). It compares with the largest word after every digit; that is the
same as comparing once, since no further digit makes a number smaller. `Text.IsNumeral` are digits
that may have a plus sign in front, and `Text.parseNumeral?_eq_some_iff` says the same of these.
-/

namespace TapeMachine.Text

variable {cs : List Char} {c : Char} {init n : Nat}

theorem le_ofDigitChars (cs : List Char) (init : Nat) : init ≤ Nat.ofDigitChars 10 cs init := by
  induction cs generalizing init with
  | nil => exact Nat.le_of_eq Nat.ofDigitChars_nil.symm
  | cons c cs ih =>
    rw [Nat.ofDigitChars_cons]
    have := ih (10 * init + (c.toNat - '0'.toNat))
    omega

theorem foldl_pushDigit_none (cs : List Char) : cs.foldl pushDigit none = none := by
  induction cs with
  | nil => rfl
  | cons c cs ih => exact ih

theorem pushDigit_some (h : c.isDigit = true) :
    pushDigit (some init) c =
      if 10 * init + (c.toNat - '0'.toNat) < UInt64.size then
        some (10 * init + (c.toNat - '0'.toNat))
      else none := by
  rw [Nat.mul_comm 10 init]
  simp only [pushDigit, digitValue?, h]
  rfl

theorem pushDigit_of_not_isDigit {value : Option Nat} (h : ¬ c.isDigit = true) :
    pushDigit value c = none := by
  cases value with
  | none => rfl
  | some n =>
    simp only [pushDigit, digitValue?, h]
    rfl

theorem foldl_pushDigit_eq_some_iff (hinit : init < UInt64.size) :
    cs.foldl pushDigit (some init) = some n ↔
    (∀ c ∈ cs, c.isDigit = true) ∧ Nat.ofDigitChars 10 cs init = n ∧ n < UInt64.size := by
  induction cs generalizing init with
  | nil =>
    simp only [List.foldl_nil, Option.some.injEq, Nat.ofDigitChars_nil]
    constructor
    · rintro rfl
      exact ⟨by simp, rfl, hinit⟩
    · exact fun h => h.2.1
  | cons c cs ih =>
    rw [List.foldl_cons, Nat.ofDigitChars_cons, List.forall_mem_cons]
    by_cases hdigit : c.isDigit = true
    · rw [pushDigit_some hdigit]
      split
      · rename_i hnext
        rw [ih hnext]
        simp only [hdigit, true_and]
      · -- The number is too large already, and the digits behind it do not make it smaller.
        rename_i hnext
        have hle := le_ofDigitChars cs (10 * init + (c.toNat - '0'.toNat))
        rw [foldl_pushDigit_none]
        constructor
        · nofun
        · rintro ⟨_, rfl, hn⟩
          omega
    · rw [pushDigit_of_not_isDigit hdigit, foldl_pushDigit_none]
      constructor
      · nofun
      · exact fun h => absurd h.1.1 hdigit

/-- Digits are read as the number that they write. -/
theorem parseDigits?_eq_some_iff {n : UInt64} : parseDigits? cs = some n ↔
    cs ≠ [] ∧ (∀ c ∈ cs, c.isDigit = true) ∧ Nat.ofDigitChars 10 cs 0 = n.toNat := by
  unfold parseDigits?
  split
  · rename_i hempty
    constructor
    · nofun
    · exact fun h => absurd (List.isEmpty_iff.1 hempty) h.1
  · rename_i hempty
    rw [Option.map_eq_some_iff]
    simp only [foldl_pushDigit_eq_some_iff (show 0 < UInt64.size by decide)]
    constructor
    · rintro ⟨value, ⟨hdigits, hvalue, hlt⟩, rfl⟩
      exact ⟨by simpa using hempty, hdigits,
        by rw [hvalue, Nat.toUInt64, UInt64.toNat_ofNat_of_lt' hlt]⟩
    · rintro ⟨_, hdigits, hvalue⟩
      exact ⟨n.toNat, ⟨hdigits, hvalue, n.toNat_lt_size⟩, UInt64.ofNat_toNat⟩

/-! ## Numerals -/

/-- A numeral of value `n`: one or more ASCII digits that write `n`, with at most one plus sign in
front. -/
def IsNumeral (text : List Char) (n : Nat) : Prop :=
  ∃ digits, (text = digits ∨ text = '+' :: digits) ∧ digits ≠ [] ∧
    (∀ c ∈ digits, c.isDigit = true) ∧
    Nat.ofDigitChars 10 digits 0 = n

theorem parseNumeral?_of_ne_plus (h : c ≠ '+') (cs : List Char) :
    parseNumeral? (c :: cs) = parseDigits? (c :: cs) := by
  unfold parseNumeral?
  split
  · rename_i heq
    exact absurd (List.cons.inj heq).1 h
  · rfl

/-- A numeral is read as its value. -/
theorem parseNumeral?_eq_some_iff {n : UInt64} :
    parseNumeral? cs = some n ↔ IsNumeral cs n.toNat := by
  constructor
  · intro h
    unfold parseNumeral? at h
    split at h
    · exact ⟨_, .inr rfl, parseDigits?_eq_some_iff.1 h⟩
    · exact ⟨_, .inl rfl, parseDigits?_eq_some_iff.1 h⟩
  · rintro ⟨digits, rfl | rfl, hdigits⟩
    · cases cs with
      | nil => exact absurd rfl hdigits.1
      | cons c cs =>
        have hne : c ≠ '+' := by
          rintro rfl
          cases hdigits.2.1 '+' List.mem_cons_self
        rw [parseNumeral?_of_ne_plus hne]
        exact parseDigits?_eq_some_iff.2 hdigits
    · exact parseDigits?_eq_some_iff.2 hdigits

theorem isNumeral_toDigits (n : Nat) : IsNumeral (Nat.toDigits 10 n) n := by
  refine ⟨_, .inl rfl, Nat.toDigits_ne_nil, fun c hc => ?_, Nat.ofDigitChars_ten_toDigits⟩
  exact Nat.isDigit_of_mem_toDigits (by decide) (by decide) hc

namespace IsNumeral

variable {m : Nat}

theorem exists_cons (h : IsNumeral cs n) :
    ∃ c rest, cs = c :: rest ∧ (c = '+' ∨ c.isDigit = true) := by
  obtain ⟨digits, rfl | rfl, hne, hdigits, _⟩ := h
  · obtain ⟨c, rest, rfl⟩ := List.exists_cons_of_ne_nil hne
    exact ⟨c, rest, rfl, .inr (hdigits c List.mem_cons_self)⟩
  · exact ⟨'+', digits, rfl, .inl rfl⟩

theorem plus_or_isDigit (h : IsNumeral cs n) : ∀ c ∈ cs, c = '+' ∨ c.isDigit = true := by
  obtain ⟨digits, rfl | rfl, _, hdigits, _⟩ := h
  · exact fun c hc => .inr (hdigits c hc)
  · exact List.forall_mem_cons.2 ⟨.inl rfl, fun c hc => .inr (hdigits c hc)⟩

/-- A numeral has one value. -/
theorem unique (h : IsNumeral cs n) (h' : IsNumeral cs m) : n = m := by
  obtain ⟨digits, htext, _, hdigits, rfl⟩ := h
  obtain ⟨digits', htext', _, hdigits', rfl⟩ := h'
  obtain rfl : digits = digits' := by
    obtain rfl | rfl := htext
    · obtain rfl | rfl := htext'
      · rfl
      · cases hdigits '+' List.mem_cons_self
    · obtain rfl | heq := htext'
      · cases hdigits' '+' List.mem_cons_self
      · exact (List.cons.inj heq).2
  rfl

end IsNumeral

end TapeMachine.Text
