import Typings.Json.Reader

/-!
# Where the strings of a JSON text are

Whether a place in a JSON text lies in a string can be told by going over the text sign by sign,
without reading what it says. Slashes, stars and backslashes stand in strings only, and no string
holds a newline: a text that is read is gone over from outside to outside, and never stops.

What goes over a text from inside and from outside is on opposite sides all the way. So of two
texts, one of which goes on inside a string of the other, at most one is read.
-/

namespace Typings.Json

/-- Where in a JSON text a sign stands. -/
inductive Place where
  | outside
  | inside
  /-- In a string, behind a backslash. -/
  | escaped
  deriving DecidableEq

/-- Signs that stand in strings only. -/
def onlyInStrings : List Char := ['/', '*', '\\']

/-- Go over a sign. -/
def Place.step : Place → Char → Option Place
  | .outside, c =>
    if c = '"' then some .inside else if c ∈ onlyInStrings then none else some .outside
  | .inside, c =>
    if c = '"' then some .outside
    else if c = '\\' then some .escaped
    else if c = '\n' then none
    else some .inside
  | .escaped, c => if c = '*' ∨ c = '\n' then none else some .inside

/-- Go over a text. -/
def Place.scan (p : Place) (s : List Char) : Option Place := s.foldlM Place.step p

namespace Place

@[simp] theorem scan_nil (p : Place) : scan p [] = some p := rfl

theorem scan_cons (p : Place) (c : Char) (s : List Char) :
    scan p (c :: s) = (step p c).bind fun p => scan p s := List.foldlM_cons

theorem scan_append (p : Place) (a b : List Char) :
    scan p (a ++ b) = (scan p a).bind fun p => scan p b := List.foldlM_append

/-- A sign that is gone over leads on. -/
theorem scan_cons_of_eq {p q : Place} {c : Char} (h : step p c = some q) (s : List Char) :
    scan p (c :: s) = scan q s := by rw [scan_cons, h, Option.bind_some]

/-- A kind of signs that are neither quotes nor stand in strings only leads from outside to
outside. -/
theorem step_of_kind {kind : Char → Bool}
    (hkind : (('"' :: onlyInStrings).all fun d => !kind d) = true) {c : Char} (h : kind c = true) :
    step .outside c = some .outside := by
  have hnot : c ∉ '"' :: onlyInStrings := by
    intro hmem
    have hne := List.all_eq_true.mp hkind c hmem
    rw [h] at hne
    cases hne
  obtain ⟨hquote, hmark⟩ := not_or.mp (mt List.mem_cons.mpr hnot)
  rw [step, if_neg hquote, if_neg hmark]

theorem scan_dropWhile {kind : Char → Bool}
    (hkind : (('"' :: onlyInStrings).all fun d => !kind d) = true) (s : List Char) :
    scan .outside (s.dropWhile kind) = scan .outside s := by
  induction s with
  | nil => rfl
  | cons c s ih =>
    by_cases hc : kind c = true
    · rw [List.dropWhile_cons_of_pos hc, ih, scan_cons_of_eq (step_of_kind hkind hc)]
    · rw [List.dropWhile_cons_of_neg hc]

/-! ## Strings -/

/-- Where a sign stands that a reader of strings comes to. -/
def ofState : StringState → Place
  | .plain => .inside
  | .escape _ => .escaped
  | .unicode _ _ _ => .inside

/-- A hexadecimal digit means nothing in a string. -/
theorem step_of_hexValue? {c : Char} {d : Nat} (h : hexValue? c = some d) :
    step .inside c = some .inside := by
  have hmark : ∀ m ∈ ['"', '\\', '\n'], c ≠ m := by
    rintro m hm rfl
    simp only [List.mem_cons, List.not_mem_nil, or_false] at hm
    rcases hm with rfl | rfl | rfl <;> cases h
  rw [step, if_neg (hmark '"' (by simp)), if_neg (hmark '\\' (by simp)),
    if_neg (hmark '\n' (by simp))]

/-- Neither a star nor a newline can be escaped. -/
theorem step_of_escaped? {c e : Char} (h : escaped? c = some e) :
    step .escaped c = some .inside := by
  have hmark : ¬ (c = '*' ∨ c = '\n') := by
    rintro (rfl | rfl) <;> cases h
  rw [step, if_neg hmark]

/-- **A string is gone over to its end.** -/
theorem scan_of_stringFrom {start : List Char} {done : List Nat} {state : StringState}
    {s : List Char} {units : List Nat} {r : List Char}
    (h : stringFrom start done state s = .ok (units, r)) :
    scan (ofState state) s = scan .outside r := by
  -- by induction on the text, with the state of the reader and the place of the scan side by side
  induction s generalizing done state with
  | nil => cases state <;> simp [stringFrom] at h
  | cons c s ih =>
    cases state with
    | plain =>
      simp only [stringFrom] at h
      split at h
      case isTrue hquote =>
        obtain ⟨-, rfl⟩ := Prod.mk.inj (Except.ok.inj h)
        exact scan_cons_of_eq (by rw [ofState, step, if_pos hquote]) s
      case isFalse hquote =>
        split at h
        case isTrue hslash =>
          have hstep : step .inside c = some .escaped := by
            rw [step, if_neg hquote, if_pos hslash]
          exact (scan_cons_of_eq hstep s).trans (ih h)
        case isFalse hslash =>
          split at h
          case isTrue => cases h
          case isFalse hcontrol =>
            -- a newline would be a control character, which the reader refuses
            have hnewline : c ≠ '\n' := by
              rintro rfl
              exact hcontrol (by decide)
            have hstep : step .inside c = some .inside := by
              rw [step, if_neg hquote, if_neg hslash, if_neg hnewline]
            exact (scan_cons_of_eq hstep s).trans (ih h)
    | escape place =>
      simp only [stringFrom] at h
      split at h
      case isTrue hu =>
        have hstep : step .escaped c = some .inside := by rw [hu]; rfl
        exact (scan_cons_of_eq hstep s).trans (ih h)
      case isFalse =>
        split at h
        case h_1 e he => exact (scan_cons_of_eq (step_of_escaped? he) s).trans (ih h)
        case h_2 => cases h
    | unicode place missing value =>
      simp only [stringFrom] at h
      split at h
      case h_1 => cases h
      case h_2 d hd =>
        refine (scan_cons_of_eq (step_of_hexValue? hd) s).trans ?_
        split at h
        · split at h
          · cases h
          · exact ih h
        · exact ih h

theorem scan_of_string {s : List Char} {text : String} {r : Shorter s}
    (h : string s = .ok (text, r)) : scan .inside s = scan .outside r.1 := by
  unfold string at h
  split at h
  case h_1 units r' hr =>
    obtain ⟨-, rfl⟩ := Prod.mk.inj (Except.ok.inj h)
    exact scan_of_stringFrom hr
  case h_2 => cases h

/-! ## Numbers and words -/

theorem scan_digits (s : List Char) : scan .outside (s.dropWhile isDigit) = scan .outside s :=
  scan_dropWhile (by decide) s

theorem scan_skipSpace (s : List Char) : scan .outside (skipSpace s) = scan .outside s :=
  scan_dropWhile (by decide) s

theorem scan_wholePart (s : List Char) : scan .outside (wholePart s).2 = scan .outside s := by
  cases s with
  | nil => rfl
  | cons c s =>
    rw [wholePart]
    split
    case isTrue hzero => rw [hzero]; rfl
    case isFalse => exact scan_digits (c :: s)

theorem scan_fraction? (s : List Char) :
    scan .outside (((fraction? s).map Prod.snd).getD s) = scan .outside s := by
  unfold fraction?
  split
  case h_1 t =>
    dsimp only
    split
    case isTrue => rfl
    case isFalse => exact scan_digits t
  case h_2 => rfl

theorem scan_exponent? (s : List Char) :
    scan .outside (((exponent? s).map Prod.snd).getD s) = scan .outside s := by
  unfold exponent?
  split
  case h_1 => rfl
  case h_2 e t =>
    split
    case isFalse => rfl
    case isTrue hmark =>
      have he : scan .outside (e :: t) = scan .outside t := by
        obtain rfl | rfl : e = 'e' ∨ e = 'E' := by simpa using hmark
        all_goals rfl
      -- behind the mark there may be a sign
      dsimp only
      split
      all_goals
        split
        case isTrue => rfl
        case isFalse => exact (scan_digits _).trans he.symm

theorem scan_of_number? {s r : List Char} {v : Scalar} (h : number? s = some (v, r)) :
    scan .outside s = scan .outside r := by
  -- what is left behind the digits, the fraction and the exponent of what comes after the sign
  have hrest : ∀ t, scan .outside (((exponent? (((fraction? (wholePart t).2).map Prod.snd).getD
      (wholePart t).2)).map Prod.snd).getD (((fraction? (wholePart t).2).map Prod.snd).getD
        (wholePart t).2)) = scan .outside t := by
    intro t
    rw [scan_exponent?, scan_fraction?, scan_wholePart]
  unfold number? at h
  dsimp only at h
  split at h
  case h_1 t =>
    have hminus : scan .outside ('-' :: t) = scan .outside t := rfl
    split at h
    case isTrue => cases h
    case isFalse =>
      split at h <;> obtain ⟨-, rfl⟩ := Prod.mk.inj (Option.some.inj h)
      all_goals exact hminus.trans (hrest t).symm
  case h_2 =>
    split at h
    case isTrue => cases h
    case isFalse =>
      split at h <;> obtain ⟨-, rfl⟩ := Prod.mk.inj (Option.some.inj h)
      all_goals exact (hrest s).symm

theorem scan_of_word? {s r : List Char} {v : Scalar} (h : word? s = some (v, r)) :
    scan .outside s = scan .outside r := by
  have hwords : (words.all fun w => scan .outside w.1 = some .outside) = true := by decide
  obtain ⟨w, hfind, hr⟩ := Option.map_eq_some_iff.mp h
  have hstart : w.1.isPrefixOf s = true := by simpa using List.find?_some hfind
  obtain ⟨t, rfl⟩ := List.isPrefixOf_iff_prefix.mp hstart
  have hw := of_decide_eq_true (List.all_eq_true.mp hwords w (List.mem_of_find?_eq_some hfind))
  obtain ⟨-, rfl⟩ := Prod.mk.inj hr
  rw [List.drop_left, scan_append, hw, Option.bind_some]

theorem scan_of_atom {s : List Char} {v : Json} {r : Shorter s} (h : atom s = .ok (v, r)) :
    scan .outside s = scan .outside r.1 := by
  unfold atom at h
  split at h
  case h_1 v' r' hatom =>
    split at h
    case isFalse => cases h
    case isTrue =>
      obtain ⟨-, rfl⟩ := Prod.mk.inj (Except.ok.inj h)
      -- an atom is a word, or else a number
      cases hword : word? s with
      | some p =>
        rw [hword, Option.orElse_eq_orElse, Option.orElse_some] at hatom
        exact scan_of_word? (hword.trans hatom)
      | none =>
        rw [hword] at hatom
        exact scan_of_number? hatom
  case h_2 => cases h

/-! ## Values -/

/-- Whatever is read at the start of `s` is gone over to its end. -/
structure GoesOver (s : List Char) : Prop where
  value : ∀ {v : Json} {r : Shorter s}, Json.value s = .ok (v, r) →
    scan .outside s = scan .outside r.1
  items : ∀ {done xs : List Json} {r : Shorter s}, Json.items done s = .ok (xs, r) →
    scan .outside s = scan .outside r.1
  members : ∀ {done fs : Fields} {r : Shorter s}, Json.members done s = .ok (fs, r) →
    scan .outside s = scan .outside r.1

variable {s : List Char}

/-- A sign behind white space is gone over to what stands behind it, which is shorter. -/
theorem scan_behind {c : Char} {t : List Char} (h : skipSpace s = c :: t)
    (hc : step .outside c = some .outside) : scan .outside s = scan .outside t := by
  rw [← scan_skipSpace, h, scan_cons_of_eq hc]

theorem length_behind {c : Char} {t : List Char} (h : skipSpace s = c :: t) :
    t.length < s.length := by
  have hlength := length_skipSpace_le s
  rw [h, List.length_cons] at hlength
  omega

/-- What stands behind white space is read like any other shorter text. -/
theorem goesOver_skipSpace (ih : ∀ t, t.length < s.length → GoesOver t) {t : List Char}
    (h : t.length < s.length) : GoesOver (skipSpace t) :=
  ih _ (Nat.lt_of_le_of_lt (length_skipSpace_le t) h)

theorem scan_of_value (ih : ∀ t, t.length < s.length → GoesOver t) {v : Json} {r : Shorter s}
    (h : Json.value s = .ok (v, r)) : scan .outside s = scan .outside r.1 := by
  unfold Json.value at h
  split at h
  case h_1 => cases h
  case h_2 t =>
    split at h
    case h_1 ht =>
      obtain ⟨-, rfl⟩ := Prod.mk.inj (Except.ok.inj h)
      exact scan_of_string ht
    case h_2 => cases h
  -- a list: its closing bracket at once, or items
  case h_3 t =>
    dsimp only at h
    split at h
    case h_1 hclose =>
      obtain ⟨-, rfl⟩ := Prod.mk.inj (Except.ok.inj h)
      exact scan_behind (s := t) hclose rfl
    case h_2 =>
      split at h
      case h_1 hitems =>
        obtain ⟨-, rfl⟩ := Prod.mk.inj (Except.ok.inj h)
        exact (scan_skipSpace t).symm.trans ((goesOver_skipSpace ih (by simp)).items hitems)
      case h_2 => cases h
  -- an object, in the same way
  case h_4 t =>
    dsimp only at h
    split at h
    case h_1 hclose =>
      obtain ⟨-, rfl⟩ := Prod.mk.inj (Except.ok.inj h)
      exact scan_behind (s := t) hclose rfl
    case h_2 =>
      split at h
      case h_1 hmembers =>
        obtain ⟨-, rfl⟩ := Prod.mk.inj (Except.ok.inj h)
        exact (scan_skipSpace t).symm.trans ((goesOver_skipSpace ih (by simp)).members hmembers)
      case h_2 => cases h
  case h_5 => exact scan_of_atom h

theorem scan_of_items (ih : ∀ t, t.length < s.length → GoesOver t) {done xs : List Json}
    {r : Shorter s} (h : Json.items done s = .ok (xs, r)) :
    scan .outside s = scan .outside r.1 := by
  unfold Json.items at h
  split at h
  case h_1 => cases h
  case h_2 x t ht hvalue =>
    refine (scan_of_value ih hvalue).trans ?_
    dsimp only at h
    split at h
    case h_1 hclose =>
      obtain ⟨-, rfl⟩ := Prod.mk.inj (Except.ok.inj h)
      exact scan_behind hclose rfl
    case h_2 u hcomma =>
      split at h
      case h_1 hitems =>
        obtain ⟨-, rfl⟩ := Prod.mk.inj (Except.ok.inj h)
        -- behind the comma the text is shorter, so the items that follow are gone over by induction
        have hu : u.length < s.length := Nat.lt_trans (length_behind hcomma) ht
        rw [scan_behind hcomma rfl, ← scan_skipSpace]
        exact (goesOver_skipSpace ih hu).items hitems
      case h_2 => cases h
    case h_3 => cases h

theorem scan_of_members (ih : ∀ t, t.length < s.length → GoesOver t) {done fs : Fields}
    {r : Shorter s} (h : Json.members done s = .ok (fs, r)) :
    scan .outside s = scan .outside r.1 := by
  unfold Json.members at h
  split at h
  case h_2 => cases h
  case h_1 t =>
    split at h
    case h_1 => cases h
    case h_2 key u hu hstring =>
      refine (scan_of_string hstring).trans ?_
      dsimp only at h
      split at h
      case h_2 => cases h
      case h_1 x hcolon =>
        split at h
        case h_1 => cases h
        case h_2 y v hv hvalue =>
          -- key, colon and value are gone over one behind the other
          have hx : x.length < ('"' :: t).length :=
            Nat.lt_trans (length_behind hcolon) (Nat.lt_trans hu (Nat.lt_succ_self _))
          rw [scan_behind hcolon rfl, ← scan_skipSpace]
          refine ((goesOver_skipSpace ih hx).value hvalue).trans ?_
          split at h
          case h_1 hclose =>
            obtain ⟨-, rfl⟩ := Prod.mk.inj (Except.ok.inj h)
            exact scan_behind hclose rfl
          case h_2 w hcomma =>
            split at h
            case h_1 hmembers =>
              obtain ⟨-, rfl⟩ := Prod.mk.inj (Except.ok.inj h)
              have hw : w.length < ('"' :: t).length :=
                Nat.lt_trans (length_behind hcomma)
                  (Nat.lt_trans hv (Nat.lt_of_le_of_lt (length_skipSpace_le x) hx))
              rw [scan_behind hcomma rfl, ← scan_skipSpace]
              exact (goesOver_skipSpace ih hw).members hmembers
            case h_2 => cases h
          case h_3 => cases h

theorem goesOver (s : List Char) : GoesOver s :=
  have ih : ∀ t : List Char, t.length < s.length → GoesOver t := fun t _ => goesOver t
  ⟨scan_of_value ih, scan_of_items ih, scan_of_members ih⟩
  termination_by s.length

/-! ## Texts -/

/-- **A text that is read is gone over from outside to outside.** -/
theorem scan_of_read {s : List Char} {v : Json} (h : read s = .ok v) :
    scan .outside s = some .outside := by
  have hdocument : document s = .ok v := by
    unfold read at h
    split at h
    case h_1 v' hv => rw [hv, Except.ok.inj h]
    case h_2 => cases h
  unfold document at hdocument
  split at hdocument
  case h_1 => cases hdocument
  case h_2 =>
    split at hdocument
    case h_1 => cases hdocument
    -- white space, a value, white space, and then nothing
    case h_2 w r hr hvalue =>
      split at hdocument
      case h_1 hend =>
        rw [← scan_skipSpace, (goesOver _).value hvalue, ← scan_skipSpace, hend]
        rfl
      case h_2 => cases hdocument

/-! ## Opposite sides -/

/-- On opposite sides of a quote. -/
def Opposite (p q : Place) : Prop :=
  p = .outside ∧ q = .inside ∨ p = .inside ∧ q = .outside

theorem Opposite.symm {p q : Place} (h : Opposite p q) : Opposite q p :=
  (Or.symm h).imp And.symm And.symm

theorem opposite_of_step {c : Char} {p q : Place} (hp : step .outside c = some p)
    (hq : step .inside c = some q) : Opposite p q := by
  by_cases hquote : c = '"'
  · rw [step, if_pos hquote] at hp
    rw [step, if_pos hquote] at hq
    exact Or.inr ⟨(Option.some.inj hp).symm, (Option.some.inj hq).symm⟩
  · rw [step, if_neg hquote] at hp
    rw [step, if_neg hquote] at hq
    split at hp
    case isTrue => cases hp
    case isFalse hmark =>
      -- a backslash, which would lead behind itself, does not stand outside
      have hslash : c ≠ '\\' := by
        rintro rfl
        exact hmark (by decide)
      rw [if_neg hslash] at hq
      split at hq
      case isTrue => cases hq
      case isFalse => exact Or.inl ⟨(Option.some.inj hp).symm, (Option.some.inj hq).symm⟩

/-- **What goes over a text from opposite sides stays on opposite sides.** -/
theorem Opposite.scan {p q p' q' : Place} {s : List Char} (h : Opposite p q)
    (hp : p.scan s = some p') (hq : q.scan s = some q') : Opposite p' q' := by
  induction s generalizing p q with
  | nil =>
    obtain rfl := Option.some.inj hp
    obtain rfl := Option.some.inj hq
    exact h
  | cons c s ih =>
    rw [scan_cons] at hp hq
    obtain ⟨p₁, hp₁, hp⟩ := Option.bind_eq_some_iff.mp hp
    obtain ⟨q₁, hq₁, hq⟩ := Option.bind_eq_some_iff.mp hq
    refine ih ?_ hp hq
    rcases h with ⟨rfl, rfl⟩ | ⟨rfl, rfl⟩
    · exact opposite_of_step hp₁ hq₁
    · exact (opposite_of_step hq₁ hp₁).symm

/-- The mark that ends a comment stands in strings only. -/
theorem inside_of_mark {p q : Place} {s : List Char} (h : p.scan ('*' :: '/' :: s) = some q) :
    p = .inside := by
  cases p with
  | outside => cases h
  | inside => rfl
  | escaped => cases h

end Place

/-- **What stands behind the end of a comment in a text that is read is not read itself**: it
starts in the middle of a string. -/
theorem read_behind_mark {s t : List Char} {v : Json} (h : read (s ++ '*' :: '/' :: t) = .ok v)
    (w : Json) : read t ≠ .ok w := by
  intro ht
  have hscan := Place.scan_of_read h
  rw [Place.scan_append] at hscan
  obtain ⟨p, -, hp⟩ := Option.bind_eq_some_iff.mp hscan
  obtain rfl := Place.inside_of_mark hp
  have hinside : Place.scan .inside t = some .outside := hp
  rcases Place.Opposite.scan (Or.inl ⟨rfl, rfl⟩) (Place.scan_of_read ht) hinside with
    ⟨-, h⟩ | ⟨h, -⟩
  · cases h
  · cases h

end Typings.Json
