import Typings.Proofs.Scanning.Decoding

/-!
# Values at the start of a text

The reader recurses on texts that get shorter, and each of its steps carries a proof that they
do. `Reads s v r` leaves the proofs out: the text `s` starts with the value `v`, and `r` is what
is left behind it. There is one lemma for each kind of value. There are two for the items of a
list, and two for the members of an object: one for the last of them, and one for those with more
behind them.

By these the value of a text is put together from the values in it. What a lemma asks of the text
itself is how it goes on, with a sign or with a string, and for a given text that is computed. So a
given text is read in one step for each value in it.

White space is skipped in front of everything, so it never has to be mentioned.
-/

namespace Typings.Json

/-- The text `s` goes on with the sign `c`, and `r` is left. -/
def GoesOn (c : Char) (s r : List Char) : Prop := skipSpace s = c :: r

/-- The text `s` starts with a string for `text`, and `r` is left. -/
def Spells (s : List Char) (text : String) (r : List Char) : Prop :=
  ∃ t units, GoesOn '"' s t ∧ stringFrom ('"' :: t) [] .plain t = .ok (units, r) ∧
    text = String.ofList (joinUnits units)

/-- The text `s` starts with the value `v`, and `r` is left. -/
def Reads (s : List Char) (v : Json) (r : List Char) : Prop :=
  ∃ h, value (skipSpace s) = .ok (v, ⟨r, h⟩)

/-- Behind the items `done`, which are in reverse, the list `xs` goes on in `s` and ends, and `r` is
left. -/
def ReadsItems (done : List Json) (s : List Char) (xs : List Json) (r : List Char) : Prop :=
  ∃ h, items done (skipSpace s) = .ok (xs, ⟨r, h⟩)

/-- Behind the members `done`, the object `fields` goes on in `s` and ends, and `r` is left. -/
def ReadsMembers (done : Fields) (s : List Char) (fields : Fields) (r : List Char) : Prop :=
  ∃ h, members done (skipSpace s) = .ok (fields, ⟨r, h⟩)

variable {s t u r rest : List Char} {v : Json} {text : String}

theorem length_lt_of_goesOn {c : Char} (h : GoesOn c s r) : r.length < s.length := by
  have hlength := length_skipSpace_le s
  rw [h, List.length_cons] at hlength
  omega

theorem length_lt_of_reads (h : Reads s v r) : r.length < s.length :=
  Nat.lt_of_lt_of_le h.1 (length_skipSpace_le s)

/-! ## Values -/

theorem reads_string (h : Spells s text r) : Reads s (.str text) r := by
  obtain ⟨t, units, hquote, hunits, rfl⟩ := h
  rw [Reads, hquote]
  refine ⟨Nat.lt_succ_of_lt (length_of_stringFrom hunits), ?_⟩
  rw [value, string_of_stringFrom hunits]

/-- What starts with no other sign is a word or a number. -/
theorem reads_scalar {c : Char} {w : Scalar} (hs : GoesOn c s t) (hc : c ∉ ['"', '[', '{'])
    (h : (word? (c :: t) <|> number? (c :: t)) = some (w, r)) (hr : r.length < (c :: t).length) :
    Reads s (.scalar w) r := by
  simp only [List.mem_cons, List.not_mem_nil, or_false, not_or] at hc
  obtain ⟨hquote, hbracket, hbrace⟩ := hc
  rw [Reads, hs]
  refine ⟨hr, ?_⟩
  rw [value]
  · rw [atom, h]
    exact dif_pos hr
  all_goals simp_all

theorem reads_list_nil (hs : GoesOn '[' s t) (h : GoesOn ']' t r) : Reads s (.arr []) r := by
  rw [Reads, hs]
  refine ⟨Nat.lt_succ_of_lt (length_lt_of_goesOn h), ?_⟩
  rw [value]
  split
  case h_1 hr =>
    cases h.symm.trans hr
    rfl
  case h_2 hne => exact absurd h (hne r)

theorem reads_list {xs : List Json} (hs : GoesOn '[' s t) (hne : (skipSpace t).head? ≠ some ']')
    (h : ReadsItems [] t xs r) : Reads s (.arr xs) r := by
  obtain ⟨hr, hitems⟩ := h
  rw [Reads, hs]
  refine ⟨Nat.lt_succ_of_lt (Nat.lt_of_lt_of_le hr (length_skipSpace_le t)), ?_⟩
  rw [value]
  split
  case h_1 hclose => exact absurd (by rw [hclose]; rfl) hne
  case h_2 => rw [hitems]

theorem reads_object_nil (hs : GoesOn '{' s t) (h : GoesOn '}' t r) : Reads s (.obj []) r := by
  rw [Reads, hs]
  refine ⟨Nat.lt_succ_of_lt (length_lt_of_goesOn h), ?_⟩
  rw [value]
  split
  case h_1 hr =>
    cases h.symm.trans hr
    rfl
  case h_2 hne => exact absurd h (hne r)

theorem reads_object {fields : Fields} (hs : GoesOn '{' s t)
    (hne : (skipSpace t).head? ≠ some '}') (h : ReadsMembers [] t fields r) :
    Reads s (.obj fields) r := by
  obtain ⟨hr, hmembers⟩ := h
  rw [Reads, hs]
  refine ⟨Nat.lt_succ_of_lt (Nat.lt_of_lt_of_le hr (length_skipSpace_le t)), ?_⟩
  rw [value]
  split
  case h_1 hclose => exact absurd (by rw [hclose]; rfl) hne
  case h_2 => rw [hmembers]

/-! ## Items -/

theorem readsItems_last {done : List Json} (hv : Reads s v t) (h : GoesOn ']' t r) :
    ReadsItems done s (v :: done).reverse r := by
  obtain ⟨ht, hvalue⟩ := hv
  refine ⟨Nat.lt_trans (length_lt_of_goesOn h) ht, ?_⟩
  rw [items, hvalue]
  dsimp only
  split
  case h_1 hr =>
    cases h.symm.trans hr
    rfl
  case h_2 hr => cases h.symm.trans hr
  case h_3 hne _ => exact absurd h (hne r)

theorem readsItems_next {done xs : List Json} (hv : Reads s v t) (h : GoesOn ',' t u)
    (hxs : ReadsItems (v :: done) u xs r) : ReadsItems done s xs r := by
  obtain ⟨ht, hvalue⟩ := hv
  obtain ⟨hr, hitems⟩ := hxs
  -- the reader checks that each item makes the text shorter
  have hu := Nat.lt_trans (length_lt_of_goesOn h) ht
  refine ⟨Nat.lt_trans (Nat.lt_of_lt_of_le hr (length_skipSpace_le u)) hu, ?_⟩
  rw [items, hvalue]
  dsimp only
  split
  case h_1 hr => cases h.symm.trans hr
  case h_2 hr =>
    cases h.symm.trans hr
    rw [hitems]
  case h_3 hne => exact absurd h (hne u)

/-! ## Members -/

theorem readsMembers_last {done : Fields} (hkey : Spells s text t) (hcolon : GoesOn ':' t u)
    (hv : Reads u v rest) (h : GoesOn '}' rest r) :
    ReadsMembers done s (setField text v done) r := by
  obtain ⟨key, units, hquote, hunits, rfl⟩ := hkey
  -- the value ends behind the colon, which is behind the key
  have hlength := Nat.lt_trans (length_lt_of_reads hv) (Nat.lt_trans (length_lt_of_goesOn hcolon)
    (length_of_stringFrom hunits))
  rw [ReadsMembers, hquote]
  refine ⟨Nat.lt_succ_of_lt (Nat.lt_trans (length_lt_of_goesOn h) hlength), ?_⟩
  rw [members, string_of_stringFrom hunits]
  dsimp only
  split
  case h_2 hne => exact absurd hcolon (hne u)
  case h_1 hu =>
    cases hcolon.symm.trans hu
    rw [hv.2]
    dsimp only
    split
    case h_1 hr =>
      cases h.symm.trans hr
      rfl
    case h_2 hr => cases h.symm.trans hr
    case h_3 hne _ => exact absurd h (hne r)

theorem readsMembers_next {done fields : Fields} {more : List Char} (hkey : Spells s text t)
    (hcolon : GoesOn ':' t u) (hv : Reads u v rest) (h : GoesOn ',' rest more)
    (hfields : ReadsMembers (setField text v done) more fields r) :
    ReadsMembers done s fields r := by
  obtain ⟨key, units, hquote, hunits, rfl⟩ := hkey
  obtain ⟨hr, hmembers⟩ := hfields
  have hlength := Nat.lt_trans (length_lt_of_reads hv) (Nat.lt_trans (length_lt_of_goesOn hcolon)
    (length_of_stringFrom hunits))
  have hmore := Nat.lt_trans (length_lt_of_goesOn h) hlength
  rw [ReadsMembers, hquote]
  refine ⟨Nat.lt_succ_of_lt (Nat.lt_trans (Nat.lt_of_lt_of_le hr (length_skipSpace_le more)) hmore),
    ?_⟩
  -- each step of the reader is one of the hypotheses
  rw [members, string_of_stringFrom hunits]
  dsimp only
  split
  case h_2 hne => exact absurd hcolon (hne u)
  case h_1 hu =>
    cases hcolon.symm.trans hu
    rw [hv.2]
    dsimp only
    split
    case h_1 hr => cases h.symm.trans hr
    case h_2 hr =>
      cases h.symm.trans hr
      rw [hmembers]
    case h_3 hne => exact absurd h (hne more)

/-! ## Texts -/

/-- **A text is read** if it is a value with nothing but white space around it. -/
theorem read_of_reads (hmark : s.head? ≠ some '\uFEFF') (hv : Reads s v r)
    (h : skipSpace r = []) : read s = .ok v := by
  obtain ⟨hr, hvalue⟩ := hv
  have hdocument : document s = .ok v := by
    unfold document
    split
    case h_1 => exact absurd rfl hmark
    case h_2 =>
      rw [hvalue]
      dsimp only
      rw [h]
  rw [read, hdocument]

end Typings.Json
