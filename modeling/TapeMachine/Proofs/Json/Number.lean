import TapeMachine.Json.Number

/-!
# The numbers of JSON

What a number is (`Json.IsNumber`), told without the functions that take one off a text. They take a
number wherever there is one, up to the first character that no longer belongs to it
(`Json.takeNumber?_append`), and nothing else (`Json.isNumber_of_takeNumber?`).
-/

namespace TapeMachine.Json

/-- At least one digit, and nothing else. -/
def IsDigits (cs : List Char) : Prop :=
  cs ≠ [] ∧ ∀ c ∈ cs, c.isDigit = true

/-- A zero, or digits that begin with another one. -/
def IsInteger (cs : List Char) : Prop :=
  cs = ['0'] ∨ IsDigits cs ∧ cs.head? ≠ some '0'

/-- A point with digits after it, or nothing. -/
def IsFraction (cs : List Char) : Prop :=
  cs = [] ∨ ∃ digits, IsDigits digits ∧ cs = '.' :: digits

/-- The letter `e` in either case, a sign or none, and digits; or nothing. -/
def IsExponent (cs : List Char) : Prop :=
  cs = [] ∨ ∃ e sign digits, (e = 'e' ∨ e = 'E') ∧ (sign = [] ∨ sign = ['+'] ∨ sign = ['-']) ∧
    IsDigits digits ∧ cs = e :: (sign ++ digits)

/-- An integer, a fraction and an exponent, as numbers have them after their sign. -/
def IsUnsigned (cs : List Char) : Prop :=
  ∃ integer fraction exponent, IsInteger integer ∧ IsFraction fraction ∧ IsExponent exponent ∧
    cs = integer ++ (fraction ++ exponent)

/-- A number, with a minus sign in front or without one. -/
def IsNumber (cs : List Char) : Prop :=
  IsUnsigned cs ∨ ∃ unsigned, IsUnsigned unsigned ∧ cs = '-' :: unsigned

/-- No digit stands in front. -/
def StopsDigits (rest : List Char) : Prop :=
  ∀ c, rest.head? = some c → c.isDigit = false

/-- Nothing that a number could go on with stands in front. -/
def StopsNumber (rest : List Char) : Prop :=
  ∀ c, rest.head? = some c → c.isDigit = false ∧ c ≠ '.' ∧ c ≠ 'e' ∧ c ≠ 'E'

variable {cs rest digits integer fraction exponent literal : List Char}

theorem StopsNumber.stopsDigits (h : StopsNumber rest) : StopsDigits rest :=
  fun c hc => (h c hc).1

theorem IsDigits.exists_cons (h : IsDigits digits) :
    ∃ c cs, digits = c :: cs ∧ c.isDigit = true := by
  cases digits with
  | nil => exact absurd rfl h.1
  | cons c cs => exact ⟨c, cs, rfl, h.2 c List.mem_cons_self⟩

theorem IsInteger.exists_cons (h : IsInteger integer) :
    ∃ c cs, integer = c :: cs ∧ c.isDigit = true := by
  obtain rfl | ⟨h, _⟩ := h
  · exact ⟨'0', [], rfl, by decide⟩
  · exact h.exists_cons

theorem IsUnsigned.exists_cons (h : IsUnsigned literal) :
    ∃ c cs, literal = c :: cs ∧ c.isDigit = true := by
  obtain ⟨integer, fraction, exponent, hinteger, _, _, rfl⟩ := h
  obtain ⟨c, cs, rfl, hc⟩ := hinteger.exists_cons
  exact ⟨c, _, rfl, hc⟩

/-! ## A number is taken as a whole -/

theorem takeDigits?_append (h : IsDigits digits) (hstop : StopsDigits rest) :
    takeDigits? (digits ++ rest) = some (digits, rest) := by
  have htake : rest.takeWhile Char.isDigit = [] := by
    cases rest with
    | nil => rfl
    | cons c rest => rw [List.takeWhile_cons, hstop c rfl]; rfl
  have hdrop : rest.dropWhile Char.isDigit = rest := by
    cases rest with
    | nil => rfl
    | cons c rest => rw [List.dropWhile_cons, hstop c rfl]; rfl
  simp only [takeDigits?]
  rw [List.takeWhile_append_of_pos h.2, List.dropWhile_append_of_pos h.2, htake, hdrop,
    List.append_nil, if_neg (by simpa using h.1)]

theorem takeInteger?_append (h : IsInteger integer) (hstop : StopsDigits rest) :
    takeInteger? (integer ++ rest) = some (integer, rest) := by
  obtain rfl | ⟨hdigits, hzero⟩ := h
  · rfl
  · -- A zero would be taken alone, but these digits do not begin with one.
    rw [← takeDigits?_append hdigits hstop]
    unfold takeInteger?
    split
    · rename_i heq
      obtain ⟨c, cs, rfl, _⟩ := hdigits.exists_cons
      cases heq
      exact absurd rfl hzero
    · rfl

theorem takeFraction?_append (h : IsFraction fraction) (hstop : StopsDigits rest)
    (hpoint : rest.head? ≠ some '.') :
    takeFraction? (fraction ++ rest) = some (fraction, rest) := by
  obtain rfl | ⟨digits, hdigits, rfl⟩ := h
  · unfold takeFraction?
    split
    · rename_i heq
      rw [← List.nil_append rest, heq] at hpoint
      exact absurd rfl hpoint
    · rfl
  · show (takeDigits? (digits ++ rest)).map _ = _
    rw [takeDigits?_append hdigits hstop]
    rfl

theorem takeExponent?_append (h : IsExponent exponent) (hstop : StopsNumber rest) :
    takeExponent? (exponent ++ rest) = some (exponent, rest) := by
  obtain rfl | ⟨e, sign, digits, he, hsign, hdigits, rfl⟩ := h
  · cases rest with
    | nil => rfl
    | cons c rest =>
      obtain ⟨_, _, hlower, hupper⟩ := hstop c rfl
      unfold takeExponent?
      exact if_neg (by simp [hlower, hupper])
  · have htake := takeDigits?_append hdigits hstop.stopsDigits
    have he : (e = 'e' || e = 'E') = true := by simpa using he
    rw [List.cons_append]
    unfold takeExponent?
    simp only [he, if_true]
    obtain rfl | rfl | rfl := hsign
    · -- The first digit is no sign.
      obtain ⟨c, cs, rfl, hc⟩ := hdigits.exists_cons
      rw [List.nil_append]
      split
      · rename_i heq
        cases heq
        cases hc
      · rename_i heq
        cases heq
        cases hc
      · rw [htake]
        rfl
    · simp only [List.cons_append, List.nil_append, htake, Option.map_some]
    · simp only [List.cons_append, List.nil_append, htake, Option.map_some]

theorem takeUnsigned?_append (h : IsUnsigned literal) (hstop : StopsNumber rest) :
    takeUnsigned? (literal ++ rest) = some (literal, rest) := by
  obtain ⟨integer, fraction, exponent, hinteger, hfraction, hexponent, rfl⟩ := h
  have hpoint : StopsDigits (exponent ++ rest) ∧ (exponent ++ rest).head? ≠ some '.' := by
    obtain rfl | ⟨e, sign, digits, rfl | rfl, _, _, rfl⟩ := hexponent
    · refine ⟨hstop.stopsDigits, fun hc => ?_⟩
      exact (hstop _ hc).2.1 rfl
    · exact ⟨fun c hc => by cases hc; decide, fun hc => by cases hc⟩
    · exact ⟨fun c hc => by cases hc; decide, fun hc => by cases hc⟩
  have hdigits : StopsDigits (fraction ++ (exponent ++ rest)) := by
    obtain rfl | ⟨digits, _, rfl⟩ := hfraction
    · exact hpoint.1
    · exact fun c hc => by cases hc; decide
  rw [List.append_assoc, List.append_assoc, takeUnsigned?, takeInteger?_append hinteger hdigits]
  show ((takeFraction? (fraction ++ (exponent ++ rest))).bind fun p => _) = _
  rw [takeFraction?_append hfraction hpoint.1 hpoint.2]
  show ((takeExponent? (exponent ++ rest)).bind fun p => _) = _
  rw [takeExponent?_append hexponent hstop]
  show some (integer ++ fraction ++ exponent, rest) = _
  rw [List.append_assoc]

/-- A number is taken off a text as long as it cannot go on behind its end. -/
theorem takeNumber?_append (h : IsNumber literal) (hstop : StopsNumber rest) :
    takeNumber? (literal ++ rest) = some (literal, rest) := by
  obtain h | ⟨unsigned, h, rfl⟩ := h
  · rw [← takeUnsigned?_append h hstop]
    obtain ⟨c, cs, rfl, hc⟩ := h.exists_cons
    unfold takeNumber?
    split
    · rename_i heq
      cases heq
      cases hc
    · rfl
  · show (takeUnsigned? (unsigned ++ rest)).map _ = _
    rw [takeUnsigned?_append h hstop]
    rfl

/-! ## Nothing else is taken -/

theorem isDigits_of_takeDigits? (h : takeDigits? cs = some (digits, rest)) :
    IsDigits digits ∧ cs = digits ++ rest := by
  simp only [takeDigits?] at h
  split at h
  · cases h
  · rename_i hne
    cases h
    refine ⟨⟨by simpa using hne, ?_⟩, List.takeWhile_append_dropWhile.symm⟩
    exact List.all_eq_true.1 List.all_takeWhile

theorem isInteger_of_takeInteger? (h : takeInteger? cs = some (integer, rest)) :
    IsInteger integer ∧ cs = integer ++ rest := by
  unfold takeInteger? at h
  split at h
  · cases h
    exact ⟨.inl rfl, rfl⟩
  · rename_i hzero
    obtain ⟨hdigits, rfl⟩ := isDigits_of_takeDigits? h
    refine ⟨.inr ⟨hdigits, ?_⟩, rfl⟩
    obtain ⟨c, cs, rfl, _⟩ := hdigits.exists_cons
    intro hhead
    cases hhead
    exact hzero _ rfl

theorem isFraction_of_takeFraction? (h : takeFraction? cs = some (fraction, rest)) :
    IsFraction fraction ∧ cs = fraction ++ rest := by
  unfold takeFraction? at h
  split at h
  · obtain ⟨⟨digits, rest'⟩, htake, hp⟩ := Option.map_eq_some_iff.1 h
    cases hp
    obtain ⟨hdigits, rfl⟩ := isDigits_of_takeDigits? htake
    exact ⟨.inr ⟨digits, hdigits, rfl⟩, rfl⟩
  · cases h
    exact ⟨.inl rfl, rfl⟩

theorem isExponent_of_takeExponent? (h : takeExponent? cs = some (exponent, rest)) :
    IsExponent exponent ∧ cs = exponent ++ rest := by
  unfold takeExponent? at h
  split at h
  · rename_i e cs
    split at h
    · rename_i he
      have he : e = 'e' ∨ e = 'E' := by simpa using he
      split at h
      all_goals
        obtain ⟨⟨digits, rest'⟩, htake, hp⟩ := Option.map_eq_some_iff.1 h
        cases hp
        obtain ⟨hdigits, rfl⟩ := isDigits_of_takeDigits? htake
      · exact ⟨.inr ⟨e, ['+'], digits, he, .inr (.inl rfl), hdigits, rfl⟩, rfl⟩
      · exact ⟨.inr ⟨e, ['-'], digits, he, .inr (.inr rfl), hdigits, rfl⟩, rfl⟩
      · exact ⟨.inr ⟨e, [], digits, he, .inl rfl, hdigits, rfl⟩, rfl⟩
    · cases h
      exact ⟨.inl rfl, rfl⟩
  · cases h
    exact ⟨.inl rfl, rfl⟩

theorem isUnsigned_of_takeUnsigned? (h : takeUnsigned? cs = some (literal, rest)) :
    IsUnsigned literal ∧ cs = literal ++ rest := by
  simp only [takeUnsigned?, Option.bind_eq_bind, Option.bind_eq_some_iff, Prod.exists] at h
  obtain ⟨integer, _, htake, fraction, _, htake', exponent, _, htake'', hp⟩ := h
  cases hp
  obtain ⟨hinteger, rfl⟩ := isInteger_of_takeInteger? htake
  obtain ⟨hfraction, rfl⟩ := isFraction_of_takeFraction? htake'
  obtain ⟨hexponent, rfl⟩ := isExponent_of_takeExponent? htake''
  refine ⟨⟨integer, fraction, exponent, hinteger, hfraction, hexponent, List.append_assoc ..⟩, ?_⟩
  simp only [List.append_assoc]

theorem isNumber_of_takeNumber? (h : takeNumber? cs = some (literal, rest)) :
    IsNumber literal ∧ cs = literal ++ rest := by
  unfold takeNumber? at h
  split at h
  · obtain ⟨⟨unsigned, rest'⟩, htake, hp⟩ := Option.map_eq_some_iff.1 h
    cases hp
    obtain ⟨hunsigned, rfl⟩ := isUnsigned_of_takeUnsigned? htake
    exact ⟨.inr ⟨unsigned, hunsigned, rfl⟩, rfl⟩
  · obtain ⟨hunsigned, rfl⟩ := isUnsigned_of_takeUnsigned? h
    exact ⟨.inl hunsigned, rfl⟩

end TapeMachine.Json
