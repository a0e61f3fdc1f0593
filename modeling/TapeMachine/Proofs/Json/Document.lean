import TapeMachine.Json.Reader
import TapeMachine.Proofs.Json.Token

/-!
# Documents of JSON

`Json.Document text v` says that `text` is a document of the value `v`: the tokens of the value,
written one after the other. `Json.parse?` gives the value of every document and of nothing else
(`Json.parse?_eq_some_iff`).

The reader works off the tokens one by one. What it has read at any time can be told from its frames
(`Json.Progress.tokens`), and a step adds the token that it reads
(`Json.Progress.tokens_of_advance?`).
-/

namespace TapeMachine.Json

mutual

/-- The tokens of a value. -/
def tokensOf : Json → List Token
  | array items => .openArray :: (itemTokens items ++ [.closeArray])
  | object members => .openObject :: (memberTokens members ++ [.closeObject])
  | value => [.scalar value]

/-- The tokens of an array's items, with commas between them. -/
def itemTokens : List Json → List Token
  | [] => []
  | [item] => tokensOf item
  | item :: rest => tokensOf item ++ .comma :: itemTokens rest

/-- The tokens of an object's members, with commas between them. -/
def memberTokens : List (Option String × Json) → List Token
  | [] => []
  | [(name, value)] => .scalar (string name) :: .colon :: tokensOf value
  | (name, value) :: rest =>
    .scalar (string name) :: .colon :: (tokensOf value ++ .comma :: memberTokens rest)

end

/-- The text is a document of this value. -/
def Document (text : String) (v : Json) : Prop :=
  WritesTokens (tokensOf v) text.toList

/-- A value without parts. -/
def IsScalar : Json → Prop
  | array _ => False
  | object _ => False
  | _ => True

/-- A property of all values, told for those without parts and then for those whose parts have
it. -/
@[elab_as_elim]
theorem ind {P : Json → Prop} (scalar : ∀ v, IsScalar v → P v)
    (array : ∀ items, (∀ v ∈ items, P v) → P (.array items))
    (object : ∀ members : List (Option String × Json),
      (∀ m ∈ members, P m.2) → P (.object members))
    (v : Json) : P v :=
  Json.rec (motive_1 := P) (motive_2 := fun items => ∀ v ∈ items, P v)
    (motive_3 := fun members => ∀ m ∈ members, P m.2) (motive_4 := fun m => P m.2)
    (scalar .null trivial) (fun _ => scalar _ trivial) (fun _ => scalar _ trivial)
    (fun _ => scalar _ trivial) array object
    (by simp) (fun _ _ hv hrest => List.forall_mem_cons.2 ⟨hv, hrest⟩)
    (by simp) (fun _ _ hm hrest => List.forall_mem_cons.2 ⟨hm, hrest⟩) (fun _ _ hv => hv) v

variable {v : Json} {frames : List Frame} {t : Token} {ts : List Token} {p p' : Progress}

theorem tokensOf_scalar (h : IsScalar v) : tokensOf v = [.scalar v] := by
  cases v with
  | array => cases h
  | object => cases h
  | _ => rw [tokensOf] <;> nofun

/-! ## The parts of a container -/

/-- The tokens of an item before another one. -/
def itemThenComma (v : Json) : List Token :=
  tokensOf v ++ [.comma]

/-- The tokens of a member before another one. -/
def memberThenComma (m : Option String × Json) : List Token :=
  .scalar (string m.1) :: .colon :: (tokensOf m.2 ++ [.comma])

theorem itemTokens_cons {items : List Json} (h : items ≠ []) :
    itemTokens (v :: items) = itemThenComma v ++ itemTokens items := by
  rw [itemTokens, itemThenComma, List.append_assoc]
  · rfl
  · exact h

theorem memberTokens_cons {m : Option String × Json}
    {members : List (Option String × Json)} (h : members ≠ []) :
    memberTokens (m :: members) = memberThenComma m ++ memberTokens members := by
  rw [memberTokens, memberThenComma]
  · simp
  · exact h

theorem itemTokens_concat (items : List Json) (v : Json) :
    itemTokens (items ++ [v]) = items.flatMap itemThenComma ++ tokensOf v := by
  induction items with
  | nil => rw [List.nil_append, itemTokens]; rfl
  | cons item items ih =>
    rw [List.cons_append, itemTokens_cons (by simp), ih, List.flatMap_cons, List.append_assoc]

theorem memberTokens_concat
    (members : List (Option String × Json)) (name : Option String) (v : Json) :
    memberTokens (members ++ [(name, v)]) =
      members.flatMap memberThenComma ++ .scalar (string name) :: .colon :: tokensOf v := by
  induction members with
  | nil => rw [List.nil_append, memberTokens]; rfl
  | cons m members ih =>
    rw [List.cons_append, memberTokens_cons (by simp), ih, List.flatMap_cons, List.append_assoc]

/-! ## What has been read -/

/-- The tokens that have been read of a container whose end is still to come. -/
def Frame.tokens : Frame → List Token
  | array items => .openArray :: items.reverse.flatMap itemThenComma
  | object members name =>
    .openObject :: (members.reverse.flatMap memberThenComma ++ [.scalar (string name), .colon])

/-- The tokens that belong to no frame yet. -/
def Expected.tokens : Expected → List Token
  | value => []
  | firstItem => []
  | name members => .openObject :: members.reverse.flatMap memberThenComma
  | firstName => [.openObject]
  | colon members key =>
    .openObject :: (members.reverse.flatMap memberThenComma ++ [.scalar (string key)])
  | next v => tokensOf v

/-- The tokens that have been read. -/
def Progress.tokens (p : Progress) : List Token :=
  p.frames.reverse.flatMap Frame.tokens ++ p.expected.tokens

/-- A token that holds a value holds one without parts. -/
def Token.Proper : Token → Prop
  | scalar v => IsScalar v
  | _ => True

theorem Progress.tokens_cons {f : Frame} {e : Expected} :
    (⟨f :: frames, e⟩ : Progress).tokens = frames.reverse.flatMap Frame.tokens ++
      (f.tokens ++ e.tokens) := by
  simp [tokens]

theorem Progress.tokens_of_startValue? (ht : t.Proper) (h : startValue? frames t = some p) :
    p.tokens = frames.reverse.flatMap Frame.tokens ++ [t] := by
  cases t with
  | scalar v =>
    cases h
    rw [tokens, Expected.tokens, tokensOf_scalar ht]
  | openArray =>
    cases h
    rw [tokens_cons]
    rfl
  | openObject =>
    cases h
    rfl
  | _ => cases h

theorem Progress.tokens_of_readName? {members : List (Option String × Json)}
    (h : readName? frames members t = some p) : p.tokens =
      frames.reverse.flatMap Frame.tokens ++
        (.openObject :: members.reverse.flatMap memberThenComma ++ [t]) := by
  unfold readName? at h
  split at h
  · cases h
    rfl
  · cases h

theorem Progress.tokens_of_afterValue? (h : afterValue? v frames t = some p) :
    p.tokens = frames.reverse.flatMap Frame.tokens ++ tokensOf v ++ [t] := by
  unfold afterValue? at h
  split at h
  · cases h
    rw [tokens_cons]
    simp [Frame.tokens, Expected.tokens, itemThenComma]
  · cases h
    rw [tokens, Expected.tokens, tokensOf, List.reverse_cons, itemTokens_concat]
    simp [Frame.tokens]
  · cases h
    rw [tokens, Expected.tokens]
    simp [Frame.tokens, memberThenComma]
  · cases h
    rw [tokens, Expected.tokens, tokensOf, List.reverse_cons, memberTokens_concat]
    simp [Frame.tokens]
  · cases h

/-- A step reads one token. -/
theorem Progress.tokens_of_advance? (ht : t.Proper) (h : p.advance? t = some p') :
    p'.tokens = p.tokens ++ [t] := by
  obtain ⟨frames, expected⟩ := p
  cases expected with
  | value => simpa [tokens, Expected.tokens] using tokens_of_startValue? ht h
  | firstItem =>
    simp only [advance?] at h
    split at h
    · cases h
      rw [tokens_cons]
      simp [tokens, Expected.tokens, Frame.tokens, tokensOf, itemTokens]
    · simpa [tokens, Expected.tokens] using tokens_of_startValue? ht h
  | name members => simpa [tokens, Expected.tokens] using tokens_of_readName? h
  | firstName =>
    simp only [advance?] at h
    split at h
    · cases h
      simp [tokens, Expected.tokens, tokensOf, memberTokens]
    · simpa [tokens, Expected.tokens] using tokens_of_readName? h
  | colon members name =>
    simp only [advance?] at h
    split at h
    · cases h
      rw [tokens_cons]
      simp [tokens, Expected.tokens, Frame.tokens]
    · cases h
  | next value =>
    rw [tokens_of_afterValue? h]
    rfl

/-- The tokens lead from one state of reading to another. -/
def Progress.Reads (p : Progress) (ts : List Token) (q : Progress) : Prop :=
  ts.foldlM advance? p = some q

theorem Progress.reads_cons_iff :
    p.Reads (t :: ts) p' ↔ ∃ q, p.advance? t = some q ∧ q.Reads ts p' :=
  Option.bind_eq_some_iff

theorem Progress.Reads.append {us : List Token} {q : Progress} (h : p.Reads ts q)
    (h' : q.Reads us p') :
    p.Reads (ts ++ us) p' := by
  rw [Reads, List.foldlM_append, show ts.foldlM advance? p = some q from h]
  exact h'

theorem Progress.Reads.tokens_eq (hts : ∀ t ∈ ts, t.Proper) (h : p.Reads ts p') :
    p'.tokens = p.tokens ++ ts := by
  induction ts generalizing p with
  | nil =>
    cases h
    rw [List.append_nil]
  | cons t ts ih =>
    obtain ⟨q, hq, h⟩ := reads_cons_iff.1 h
    rw [ih (fun u hu => hts u (List.mem_cons_of_mem _ hu)) h,
      tokens_of_advance? (hts t List.mem_cons_self) hq, List.append_assoc]
    rfl

theorem ofTokens?_eq_some_iff :
    ofTokens? ts = some v ↔ Progress.Reads ⟨[], .value⟩ ts ⟨[], .next v⟩ := by
  unfold ofTokens? Progress.Reads
  constructor
  · intro h
    split at h
    · rename_i value hread
      cases h
      exact hread
    · cases h
  · intro h
    rw [h]

/-- Only the tokens of a value are read as that value. -/
theorem eq_tokensOf_of_ofTokens? (hts : ∀ t ∈ ts, t.Proper) (h : ofTokens? ts = some v) :
    ts = tokensOf v := by
  have htokens := (ofTokens?_eq_some_iff.1 h).tokens_eq hts
  simpa [Progress.tokens, Expected.tokens] using htokens.symm

/-! ## Scalars stand apart -/

/-- After a scalar comes none. -/
theorem Progress.not_advance?_scalar {value : Json} (h : p.advance? (.scalar v) = some p') :
    p'.advance? (.scalar value) = none := by
  have hvalue {frames : List Frame} (h : startValue? frames (.scalar v) = some p') :
      p'.advance? (.scalar value) = none := by
    cases h
    cases frames with
    | nil => rfl
    | cons f frames => cases f <;> rfl
  have hname {frames : List Frame} {members : List (Option String × Json)}
      (h : readName? frames members (.scalar v) = some p') :
      p'.advance? (.scalar value) = none := by
    unfold readName? at h
    split at h
    · cases h
      rfl
    · cases h
  obtain ⟨frames, expected⟩ := p
  cases expected with
  | value => exact hvalue h
  | firstItem =>
    simp only [advance?] at h
    exact hvalue h
  | name members => exact hname h
  | firstName => exact hname h
  | colon members name => cases h
  | next value =>
    cases frames with
    | nil => cases h
    | cons f frames => cases f <;> cases h

theorem Progress.Reads.scalarsApart (h : p.Reads ts p') : ScalarsApart ts := by
  induction ts generalizing p with
  | nil => exact .nil
  | cons t ts ih =>
    obtain ⟨q, hq, h⟩ := reads_cons_iff.1 h
    refine List.isChain_cons.2 ⟨fun u hu => ?_, ih h⟩
    obtain ⟨ts, rfl⟩ := List.head?_eq_some_iff.1 hu
    obtain ⟨r, hr, _⟩ := reads_cons_iff.1 h
    cases t with
    | scalar v =>
      cases u with
      | scalar w => simp [not_advance?_scalar hq] at hr
      | _ => exact .inr rfl
    | _ => exact .inl rfl

/-! ## The tokens of a value are read -/

/-- The tokens of a value lead over it, wherever it stands. -/
def IsRead (v : Json) : Prop :=
  ∀ frames, Progress.Reads ⟨frames, .value⟩ (tokensOf v) ⟨frames, .next v⟩

/-- Where an array has been opened, a value is read as anywhere else. -/
theorem reads_firstItem (h : Progress.Reads ⟨frames, .value⟩ (tokensOf v ++ ts) p) :
    Progress.Reads ⟨frames, .firstItem⟩ (tokensOf v ++ ts) p := by
  have hhead : ∃ t rest, tokensOf v = t :: rest ∧ t ≠ .closeArray := by
    cases v with
    | array => exact ⟨_, _, rfl, nofun⟩
    | object => exact ⟨_, _, rfl, nofun⟩
    | _ => exact ⟨_, _, tokensOf_scalar trivial, nofun⟩
  obtain ⟨t, rest, heq, ht⟩ := hhead
  rw [heq, List.cons_append, Progress.reads_cons_iff] at h ⊢
  have hstep : Progress.advance? ⟨frames, .firstItem⟩ t = Progress.advance? ⟨frames, .value⟩ t := by
    simp only [Progress.advance?]
    split
    · exact absurd rfl ht
    · rfl
  rwa [hstep]

theorem reads_items {items : List Json} (h : ∀ v ∈ items, IsRead v) (seen : List Json) :
    Progress.Reads ⟨.array seen :: frames, .value⟩ (items.flatMap itemThenComma)
      ⟨.array (items.reverse ++ seen) :: frames, .value⟩ := by
  induction items generalizing seen with
  | nil => rfl
  | cons v items ih =>
    have hcomma : Progress.Reads ⟨.array seen :: frames, .next v⟩ [.comma]
        ⟨.array (v :: seen) :: frames, .value⟩ := rfl
    have hitem := (h v List.mem_cons_self (.array seen :: frames)).append hcomma
    have hrest := ih (fun u hu => h u (List.mem_cons_of_mem _ hu)) (v :: seen)
    rw [List.reverse_cons, List.append_assoc]
    exact hitem.append hrest

theorem isRead_array {items : List Json} (h : ∀ v ∈ items, IsRead v) : IsRead (array items) := by
  intro frames
  rw [tokensOf]
  refine Progress.reads_cons_iff.2 ⟨_, rfl, ?_⟩
  -- The last item is followed by the bracket, the other ones by commas.
  cases items using List.reverseRecOn with
  | nil => rfl
  | append_singleton items v =>
    have hitems : Progress.Reads ⟨.array [] :: frames, .value⟩ (items.flatMap itemThenComma) _ :=
      reads_items (fun u hu => h u (List.mem_append_left _ hu)) []
    have hclose : Progress.Reads ⟨.array (items.reverse ++ []) :: frames, .next v⟩ [.closeArray]
        ⟨frames, .next (array (v :: (items.reverse ++ [])).reverse)⟩ := rfl
    have hread := hitems.append ((h v (by simp) _).append hclose)
    have hvalue : (v :: (items.reverse ++ [])).reverse = items ++ [v] := by simp
    rw [hvalue] at hread
    rw [itemTokens_concat, List.append_assoc]
    cases items with
    | nil => exact reads_firstItem hread
    | cons u items =>
      rw [List.flatMap_cons, itemThenComma, List.append_assoc, List.append_assoc] at hread ⊢
      exact reads_firstItem hread

theorem reads_member (h : IsRead v) (seen : List (Option String × Json)) (name : Option String) :
    Progress.Reads ⟨frames, .name seen⟩ (.scalar (string name) :: .colon :: tokensOf v)
      ⟨.object seen name :: frames, .next v⟩ :=
  h (.object seen name :: frames)

theorem reads_members {members : List (Option String × Json)} (h : ∀ m ∈ members, IsRead m.2)
    (seen : List (Option String × Json)) :
    Progress.Reads ⟨frames, .name seen⟩ (members.flatMap memberThenComma)
      ⟨frames, .name (members.reverse ++ seen)⟩ := by
  induction members generalizing seen with
  | nil => rfl
  | cons m members ih =>
    have hcomma : Progress.Reads ⟨.object seen m.1 :: frames, .next m.2⟩ [.comma]
        ⟨frames, .name (m :: seen)⟩ := rfl
    have hmember := (reads_member (h m List.mem_cons_self) seen m.1).append hcomma
    have hrest := ih (fun u hu => h u (List.mem_cons_of_mem _ hu)) (m :: seen)
    rw [List.reverse_cons, List.append_assoc]
    exact hmember.append hrest

theorem isRead_object {members : List (Option String × Json)} (h : ∀ m ∈ members, IsRead m.2) :
    IsRead (object members) := by
  intro frames
  rw [tokensOf]
  refine Progress.reads_cons_iff.2 ⟨_, rfl, ?_⟩
  cases members using List.reverseRecOn with
  | nil => rfl
  | append_singleton members m =>
    obtain ⟨name, v⟩ := m
    have hmembers : Progress.Reads ⟨frames, .name []⟩ (members.flatMap memberThenComma) _ :=
      reads_members (fun u hu => h u (List.mem_append_left _ hu)) []
    have hclose :
      Progress.Reads ⟨.object (members.reverse ++ []) name :: frames, .next v⟩ [.closeObject]
        ⟨frames, .next (object ((name, v) :: (members.reverse ++ [])).reverse)⟩ := rfl
    have hread := (hmembers.append (reads_member (h (name, v) (by simp)) _ name)).append hclose
    have hvalue : ((name, v) :: (members.reverse ++ [])).reverse = members ++ [(name, v)] := by simp
    rw [hvalue] at hread
    rw [memberTokens_concat]
    -- Where an object has been opened, the name of a member is read as anywhere else.
    cases members with
    | nil => exact hread
    | cons m members => exact hread

theorem isRead (v : Json) : IsRead v := by
  induction v using ind with
  | scalar v h =>
    intro frames
    rw [tokensOf_scalar h]
    rfl
  | array items ih => exact isRead_array ih
  | object members ih => exact isRead_object ih

theorem ofTokens?_tokensOf (v : Json) : ofTokens? (tokensOf v) = some v :=
  ofTokens?_eq_some_iff.2 (isRead v [])

/-! ## Documents -/

theorem WritesToken.proper {cs : List Char} (h : WritesToken t cs) : t.Proper := by
  cases h <;> trivial

theorem WritesTokens.proper {cs : List Char} (h : WritesTokens ts cs) : ∀ t ∈ ts, t.Proper := by
  induction h with
  | nil => simp
  | cons _ ht _ ih => exact List.forall_mem_cons.2 ⟨ht.proper, ih⟩

/-- The value of a text is the one that the text is a document of. -/
theorem parse?_eq_some_iff {text : String} : parse? text = some v ↔ Document text v := by
  constructor
  · intro h
    obtain ⟨ts, htokens, hvalue⟩ := Option.bind_eq_some_iff.1 h
    have hts := writesTokens_of_tokens? htokens
    obtain rfl := eq_tokensOf_of_ofTokens? hts.proper hvalue
    exact hts
  · intro h
    have hapart : ScalarsApart (tokensOf v) := (isRead v []).scalarsApart
    rw [parse?, tokens?_of_writesTokens h hapart]
    exact ofTokens?_tokensOf v

end TapeMachine.Json
