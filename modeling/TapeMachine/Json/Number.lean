/-!
# Numbers in JSON

A number is an integer without leading zeros, with an optional sign, fraction and exponent.
`Json.takeNumber?` takes one off a text, as it is written.
-/

namespace TapeMachine.Json

/-- Takes one or more digits off a text. -/
def takeDigits? (cs : List Char) : Option (List Char × List Char) :=
  let digits := cs.takeWhile Char.isDigit
  if digits.isEmpty then none else some (digits, cs.dropWhile Char.isDigit)

/-- Takes the integer part of a number off a text: a zero, or digits that begin with another one. -/
def takeInteger? : List Char → Option (List Char × List Char)
  | '0' :: rest => some (['0'], rest)
  | cs => takeDigits? cs

/-- Takes a fraction off a text, if there is one. -/
def takeFraction? : List Char → Option (List Char × List Char)
  | '.' :: cs => (takeDigits? cs).map fun (digits, rest) => ('.' :: digits, rest)
  | cs => some ([], cs)

/-- Takes an exponent off a text, if there is one. -/
def takeExponent? : List Char → Option (List Char × List Char)
  | c :: cs =>
    if c = 'e' || c = 'E' then
      match cs with
      | '+' :: cs => (takeDigits? cs).map fun (digits, rest) => (c :: '+' :: digits, rest)
      | '-' :: cs => (takeDigits? cs).map fun (digits, rest) => (c :: '-' :: digits, rest)
      | cs => (takeDigits? cs).map fun (digits, rest) => (c :: digits, rest)
    else some ([], c :: cs)
  | [] => some ([], [])

/-- Takes a number without a sign off a text. -/
def takeUnsigned? (cs : List Char) : Option (List Char × List Char) := do
  let (integer, cs) ← takeInteger? cs
  let (fraction, cs) ← takeFraction? cs
  let (exponent, cs) ← takeExponent? cs
  return (integer ++ fraction ++ exponent, cs)

/-- Takes a number off a text. -/
def takeNumber? : List Char → Option (List Char × List Char)
  | '-' :: cs => (takeUnsigned? cs).map fun (literal, rest) => ('-' :: literal, rest)
  | cs => takeUnsigned? cs

/-! ## Every number takes characters -/

theorem length_of_takeDigits? {cs : List Char} {p : List Char × List Char}
    (h : takeDigits? cs = some p) : p.2.length < cs.length := by
  simp only [takeDigits?] at h
  split at h
  · simp at h
  · rename_i hne
    simp only [Option.some.injEq] at h
    subst h
    have hsum :=
      congrArg List.length (List.takeWhile_append_dropWhile (p := Char.isDigit) (l := cs))
    simp only [List.length_append] at hsum
    have hpos : 0 < (cs.takeWhile Char.isDigit).length := by
      simpa [List.length_pos_iff] using hne
    simp only
    omega

theorem length_of_takeInteger? {cs : List Char} {p : List Char × List Char}
    (h : takeInteger? cs = some p) : p.2.length < cs.length := by
  unfold takeInteger? at h
  split at h
  · simp only [Option.some.injEq] at h
    simp [← h]
  · exact length_of_takeDigits? h

theorem length_of_takeFraction? {cs : List Char} {p : List Char × List Char}
    (h : takeFraction? cs = some p) : p.2.length ≤ cs.length := by
  unfold takeFraction? at h
  split at h
  · obtain ⟨q, hq, rfl⟩ := Option.map_eq_some_iff.1 h
    have := length_of_takeDigits? hq
    simp only [List.length_cons]
    omega
  · simp only [Option.some.injEq] at h
    simp [← h]

theorem length_of_takeExponent? {cs : List Char} {p : List Char × List Char}
    (h : takeExponent? cs = some p) : p.2.length ≤ cs.length := by
  unfold takeExponent? at h
  repeat' split at h
  all_goals first
    | (obtain ⟨q, hq, rfl⟩ := Option.map_eq_some_iff.1 h
       have := length_of_takeDigits? hq
       simp only [List.length_cons] at *
       omega)
    | (simp only [Option.some.injEq] at h
       simp [← h])

theorem length_of_takeUnsigned? {cs : List Char} {p : List Char × List Char}
    (h : takeUnsigned? cs = some p) : p.2.length < cs.length := by
  simp only [takeUnsigned?, Option.bind_eq_bind, Option.bind_eq_some_iff, Option.pure_def,
    Option.some.injEq] at h
  obtain ⟨a, ha, b, hb, c, hc, rfl⟩ := h
  have := length_of_takeInteger? ha
  have := length_of_takeFraction? hb
  have := length_of_takeExponent? hc
  simp only
  omega

theorem length_of_takeNumber? {cs : List Char} {p : List Char × List Char}
    (h : takeNumber? cs = some p) : p.2.length < cs.length := by
  unfold takeNumber? at h
  split at h
  · obtain ⟨q, hq, rfl⟩ := Option.map_eq_some_iff.1 h
    have := length_of_takeUnsigned? hq
    simp only [List.length_cons]
    omega
  · exact length_of_takeUnsigned? h

end TapeMachine.Json
