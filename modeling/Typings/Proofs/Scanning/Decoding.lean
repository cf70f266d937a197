import Typings.Json.Reader
import Typings.Proofs.Scanning.Literal

/-!
# String literals are read back

A text goes into a string literal character by character, and every character is written so that
it can be read by itself: as it is, as an escape of one letter, or by its UTF-16 code units, of
which a character above U+FFFF has two. The reader of JSON gets the code units back one after the
other, and joins those that belong together. So a literal is read as the text that it was written
for, whatever the text is.

Nor does a literal depend on what stands behind it. It ends at its first quote that is not escaped,
so a text that starts with a literal starts with no other one, and literals that stand in a row can
be told apart.
-/

namespace Typings.Json

/-- The text that a literal stands for, if this is a literal and nothing else. -/
def ofLiteral? (literal : String) : Option String :=
  match literal.toList with
  | '"' :: s =>
    match string s with
    | .ok (text, r) => if r.1.isEmpty then some text else none
    | .error _ => none
  | _ => none

/-! ## Code units -/

/-- The UTF-16 code units of a character. -/
def codeUnits (c : Char) : List Nat :=
  if c.toNat < 0x10000 then [c.toNat]
  else [0xD800 + (c.toNat - 0x10000) / 0x400, 0xDC00 + (c.toNat - 0x10000) % 0x400]

/-- No character lies among the surrogates. -/
theorem not_surrogate (c : Char) : c.toNat < 0xD800 ∨ 0xDFFF < c.toNat := by
  have hvalid : c.toNat.isValidChar := c.valid
  unfold Nat.isValidChar at hvalid
  omega

theorem toNat_lt (c : Char) : c.toNat < 0x110000 := by
  have hvalid : c.toNat.isValidChar := c.valid
  unfold Nat.isValidChar at hvalid
  omega

/-- A code unit that is no surrogate is a character. -/
theorem joinUnits_single {c : Char} (h : c.toNat < 0x10000) (us : List Nat) :
    joinUnits (c.toNat :: us) = c :: joinUnits us := by
  have hsurrogate := not_surrogate c
  have hsingle : ¬ (0xD800 ≤ c.toNat && c.toNat < 0xE000) = true := by
    simp only [Bool.and_eq_true, decide_eq_true_eq]
    omega
  cases us with
  | nil =>
    simp only [joinUnits, if_neg hsingle, Char.ofNat_toNat]
  | cons v us =>
    -- even with a low surrogate behind it this unit is not the first of a pair
    have hpair : ¬ (0xD800 ≤ c.toNat && c.toNat < 0xDC00 && 0xDC00 ≤ v && v < 0xE000) = true := by
      simp only [Bool.and_eq_true, decide_eq_true_eq]
      omega
    simp only [joinUnits, if_neg hpair, if_neg hsingle, Char.ofNat_toNat]

/-- The two surrogates of a character are that character. -/
theorem joinUnits_pair {c : Char} (h : ¬ c.toNat < 0x10000) (us : List Nat) :
    joinUnits ((0xD800 + (c.toNat - 0x10000) / 0x400) ::
      (0xDC00 + (c.toNat - 0x10000) % 0x400) :: us) = c :: joinUnits us := by
  have hlt := toNat_lt c
  have hpair : (0xD800 ≤ 0xD800 + (c.toNat - 0x10000) / 0x400 &&
      0xD800 + (c.toNat - 0x10000) / 0x400 < 0xDC00 &&
      0xDC00 ≤ 0xDC00 + (c.toNat - 0x10000) % 0x400 &&
      0xDC00 + (c.toNat - 0x10000) % 0x400 < 0xE000) = true := by
    simp only [Bool.and_eq_true, decide_eq_true_eq]
    omega
  -- the ten high and the ten low bits together
  have hvalue : 0x10000 + (0xD800 + (c.toNat - 0x10000) / 0x400 - 0xD800) * 0x400 +
      (0xDC00 + (c.toNat - 0x10000) % 0x400 - 0xDC00) = c.toNat := by
    omega
  simp only [joinUnits, if_pos hpair, hvalue, Char.ofNat_toNat]

/-- **Code units in a row are joined to the characters that they come from.** -/
theorem joinUnits_flatMap_codeUnits (s : List Char) : joinUnits (s.flatMap codeUnits) = s := by
  induction s with
  | nil => rfl
  | cons c s ih =>
    rw [List.flatMap_cons, codeUnits]
    split
    case isTrue h =>
      rw [List.singleton_append, joinUnits_single h, ih]
    case isFalse h =>
      rw [List.cons_append, List.singleton_append, joinUnits_pair h, ih]

/-! ## How a character is written -/

/-- The three ways to write a character inside a literal. -/
inductive Spelling (c : Char) : List Char → Prop
  /-- As it is. -/
  | plain (hquote : c ≠ '"') (hslash : c ≠ '\\') (hprintable : 0x20 ≤ c.toNat ∧ c.toNat ≤ 0x7E) :
    Spelling c [c]
  /-- By an escape of one letter. -/
  | letter {d : Char} (h : escaped? d = some c) (hc : c.toNat < 0x10000) : Spelling c ['\\', d]
  /-- By its code units. -/
  | units : Spelling c ((codeUnits c).flatMap unitEscape)

theorem spelling_literalChar (c : Char) : Spelling c (literalChar c) := by
  have hletter : ∀ d e : Char, escaped? d = some e → e.toNat < 0x10000 → c = e →
      Spelling c ['\\', d] := by
    intro d e hd he hc
    rw [← hc] at hd he
    exact .letter hd he
  unfold literalChar
  by_cases hquote : c = '"'
  · rw [if_pos hquote]
    exact hletter '"' '"' rfl (by decide) hquote
  by_cases hslash : c = '\\'
  · rw [if_neg hquote, if_pos hslash]
    exact hletter '\\' '\\' rfl (by decide) hslash
  rw [if_neg hquote, if_neg hslash]
  -- five control characters have escapes of one letter
  split
  · exact hletter 'n' '\n' rfl (by decide) ‹_›
  split
  · exact hletter 'r' '\r' rfl (by decide) ‹_›
  split
  · exact hletter 't' '\t' rfl (by decide) ‹_›
  split
  · exact hletter 'f' '\x0c' rfl (by decide) ‹_›
  split
  · exact hletter 'b' '\x08' rfl (by decide) ‹_›
  split
  case isTrue hprintable =>
    simp only [Bool.and_eq_true, decide_eq_true_eq] at hprintable
    exact .plain hquote hslash hprintable
  case isFalse =>
    have hunits : Spelling c ((codeUnits c).flatMap unitEscape) := .units
    unfold codeUnits at hunits
    split
    case isTrue hunit =>
      rw [if_pos hunit] at hunits
      simpa using hunits
    case isFalse hunit =>
      rw [if_neg hunit] at hunits
      simpa using hunits

/-! ## Reading what was written -/

variable {start : List Char} {done : List Nat} {s rest : List Char}

theorem stringFrom_quote : stringFrom start done .plain ('"' :: s) = .ok (done.reverse, s) := by
  simp [stringFrom]

theorem stringFrom_backslash :
    stringFrom start done .plain ('\\' :: s) = stringFrom start done (.escape ('\\' :: s)) s := by
  simp [stringFrom]

/-- A character that means nothing inside a literal stands for itself. -/
theorem stringFrom_char {c : Char} (hquote : c ≠ '"') (hslash : c ≠ '\\') (hc : 0x20 ≤ c.toNat) :
    stringFrom start done .plain (c :: s) = stringFrom start (c.toNat :: done) .plain s := by
  have hcontrol : ¬ c.toNat < 0x20 := by omega
  rw [stringFrom, if_neg hquote, if_neg hslash, if_neg hcontrol]

/-- An escape of one letter. -/
theorem stringFrom_letter {c e : Char} (h : escaped? c = some e) :
    stringFrom start done .plain ('\\' :: c :: s) =
      stringFrom start (e.toNat :: done) .plain s := by
  have hu : c ≠ 'u' := by
    intro hc
    rw [hc] at h
    cases h
  rw [stringFrom_backslash, stringFrom, if_neg hu, h]

theorem hexValue?_hexDigit : ∀ n < 16, hexValue? (Text.hexDigit n) = some n := by
  decide

/-- The value of an escape after as many digits of `n` as the width says, behind digits that came
to `value`. -/
def behindDigits (value : Nat) : Nat → Nat → Nat
  | 0, _ => value
  | width + 1, n => behindDigits value width (n / 16) * 16 + n % 16

/-- Digits in front of others are read into the value of an escape. -/
theorem stringFrom_hexDigits {place : List Char} (width : Nat) {missing : Nat}
    (hmissing : 1 ≤ missing) (value n : Nat) (rest : List Char) :
    stringFrom start done (.unicode place (width + missing) value)
        (Text.hexDigits width n ++ rest) =
      stringFrom start done (.unicode place missing (behindDigits value width n)) rest := by
  induction width generalizing n missing rest with
  | zero => rw [Text.hexDigits, List.nil_append, Nat.zero_add, behindDigits]
  | succ width ih =>
    -- the last of these digits is read by one step, those in front of it by the induction
    have hdigit : hexValue? (Text.hexDigit (n % 16)) = some (n % 16) :=
      hexValue?_hexDigit (n % 16) (Nat.mod_lt n (by omega))
    have hmore : ¬ missing + 1 ≤ 1 := by omega
    have hwidth : width + 1 + missing = width + (missing + 1) := by omega
    rw [Text.hexDigits, List.append_assoc, hwidth, ih (by omega), List.singleton_append,
      stringFrom]
    simp only [hdigit, if_neg hmore, Nat.add_sub_cancel, behindDigits]

/-- An escape of a code unit is read as that code unit. -/
theorem stringFrom_unitEscape {n : Nat} (hn : n < 0x10000) (hrest : rest ≠ []) :
    stringFrom start done .plain (unitEscape n ++ rest) =
      stringFrom start (n :: done) .plain rest := by
  have hdigit : hexValue? (Text.hexDigit (n % 16)) = some (n % 16) :=
    hexValue?_hexDigit (n % 16) (Nat.mod_lt n (by omega))
  have hvalue : behindDigits 0 3 (n / 16) * 16 + n % 16 = n := by
    simp only [behindDigits]
    omega
  have hnonempty : rest.isEmpty = false := List.isEmpty_eq_false_iff.mpr hrest
  -- the last of the four digits is the one that completes the escape
  have hescape : unitEscape n ++ rest = '\\' :: 'u' ::
      (Text.hexDigits 3 (n / 16) ++ (Text.hexDigit (n % 16) :: rest)) := by
    rw [unitEscape, Text.hexDigits, List.cons_append, List.cons_append, List.append_assoc]
    rfl
  rw [hescape, stringFrom_backslash, stringFrom, if_pos rfl,
    stringFrom_hexDigits 3 (Nat.le_refl 1), stringFrom]
  simp only [hdigit, hvalue, hnonempty, Nat.le_refl, if_true, Bool.false_eq_true, if_false]

/-- Code units that are escaped one after the other are read. -/
theorem stringFrom_units {us : List Nat} (hus : ∀ u ∈ us, u < 0x10000) (hrest : rest ≠ []) :
    stringFrom start done .plain (us.flatMap unitEscape ++ rest) =
      stringFrom start (us.reverse ++ done) .plain rest := by
  induction us generalizing done with
  | nil => rfl
  | cons u us ih =>
    obtain ⟨hu, hus⟩ := List.forall_mem_cons.mp hus
    have hbehind : us.flatMap unitEscape ++ rest ≠ [] := by simp [hrest]
    rw [List.flatMap_cons, List.append_assoc, stringFrom_unitEscape hu hbehind, ih hus,
      List.reverse_cons, List.append_assoc]
    rfl

theorem codeUnits_lt (c : Char) : ∀ u ∈ codeUnits c, u < 0x10000 := by
  have hlt := toNat_lt c
  intro u hu
  unfold codeUnits at hu
  split at hu
  · have hc := List.mem_singleton.mp hu
    omega
  · simp only [List.mem_cons, List.not_mem_nil, or_false] at hu
    omega

/-- **However a character is written, its code units are read.** -/
theorem stringFrom_spelling {c : Char} {w : List Char} (h : Spelling c w) (hrest : rest ≠ []) :
    stringFrom start done .plain (w ++ rest) =
      stringFrom start ((codeUnits c).reverse ++ done) .plain rest := by
  have hsingle : c.toNat < 0x10000 → codeUnits c = [c.toNat] := fun hc => if_pos hc
  cases h with
  | plain hquote hslash hprintable =>
    rw [hsingle (by omega)]
    exact stringFrom_char hquote hslash hprintable.1
  | letter h hc =>
    rw [hsingle hc]
    exact stringFrom_letter h
  | units => exact stringFrom_units (codeUnits_lt c) hrest

/-- The inside of a literal is read up to its closing quote. -/
theorem stringFrom_flatMap_literalChar (t : List Char) :
    stringFrom start done .plain (t.flatMap literalChar ++ '"' :: rest) =
      .ok (done.reverse ++ t.flatMap codeUnits, rest) := by
  induction t generalizing done with
  | nil =>
    rw [List.flatMap_nil, List.flatMap_nil, List.append_nil, List.nil_append, stringFrom_quote]
  | cons c t ih =>
    have hbehind : t.flatMap literalChar ++ '"' :: rest ≠ [] := by simp
    rw [List.flatMap_cons, List.append_assoc,
      stringFrom_spelling (spelling_literalChar c) hbehind, ih, List.reverse_append,
      List.reverse_reverse, List.flatMap_cons, List.append_assoc]

theorem string_of_stringFrom {units : List Nat} {r : List Char}
    (h : stringFrom ('"' :: s) [] .plain s = .ok (units, r)) :
    string s = .ok (String.ofList (joinUnits units), ⟨r, length_of_stringFrom h⟩) := by
  unfold string
  split
  case h_1 units' r' h' =>
    obtain ⟨rfl, rfl⟩ := Prod.mk.inj (Except.ok.inj (h'.symm.trans h))
    rfl
  case h_2 e h' => cases h'.symm.trans h

/-- **The literal of a text is read as that text.** -/
theorem ofLiteral?_stringLiteral (t : String) : ofLiteral? (stringLiteral t) = some t := by
  have hliteral : (stringLiteral t).toList = '"' :: (t.toList.flatMap literalChar ++ ['"']) := by
    rw [stringLiteral, String.toList_ofList]
    rfl
  have hunits : stringFrom ('"' :: (t.toList.flatMap literalChar ++ ['"'])) [] .plain
      (t.toList.flatMap literalChar ++ ['"']) = .ok (t.toList.flatMap codeUnits, []) :=
    stringFrom_flatMap_literalChar t.toList
  have htext : String.ofList (joinUnits (t.toList.flatMap codeUnits)) = t := by
    rw [joinUnits_flatMap_codeUnits, String.ofList_toList]
  rw [ofLiteral?, hliteral]
  simp only [string_of_stringFrom hunits, htext, List.isEmpty_nil, if_true]

/-! ## Where a literal ends -/

/-- What the reader has read of an escape that is not complete. -/
def opened : StringState → List Char
  | .plain => []
  | .escape _ => ['\\']
  | .unicode _ _ _ => []

/-- What is read of a string is the inside of a literal, and its closing quote. -/
theorem literalBody_of_stringFrom {state : StringState} {units : List Nat} {r : List Char}
    (h : stringFrom start done state s = .ok (units, r)) :
    ∃ body, LiteralBody (opened state ++ body) ∧ s = body ++ '"' :: r := by
  induction s generalizing done state with
  | nil => cases state <;> simp [stringFrom] at h
  | cons c s ih =>
    cases state with
    | plain =>
      simp only [stringFrom] at h
      split at h
      case isTrue hquote =>
        obtain ⟨-, rfl⟩ := Prod.mk.inj (Except.ok.inj h)
        exact ⟨[], .nil, by rw [hquote]; rfl⟩
      case isFalse hquote =>
        split at h
        case isTrue hslash =>
          obtain ⟨body, hbody, rfl⟩ := ih h
          exact ⟨c :: body, hslash ▸ hbody, rfl⟩
        case isFalse hslash =>
          split at h
          case isTrue => cases h
          case isFalse =>
            obtain ⟨body, hbody, rfl⟩ := ih h
            exact ⟨c :: body, .char hquote hslash hbody, rfl⟩
    | escape place =>
      simp only [stringFrom] at h
      split at h
      case isTrue =>
        obtain ⟨body, hbody, rfl⟩ := ih h
        exact ⟨c :: body, .escape c hbody, rfl⟩
      case isFalse =>
        split at h
        case h_1 =>
          obtain ⟨body, hbody, rfl⟩ := ih h
          exact ⟨c :: body, .escape c hbody, rfl⟩
        case h_2 => cases h
    | unicode place missing value =>
      simp only [stringFrom] at h
      split at h
      case h_1 => cases h
      case h_2 d hd =>
        -- a digit is neither a quote nor a backslash
        have hquote : c ≠ '"' := by
          intro hc
          rw [hc] at hd
          cases hd
        have hslash : c ≠ '\\' := by
          intro hc
          rw [hc] at hd
          cases hd
        have hbody : ∃ body, LiteralBody body ∧ s = body ++ '"' :: r := by
          split at h
          · split at h
            · cases h
            · exact ih h
          · exact ih h
        obtain ⟨body, hbody, rfl⟩ := hbody
        exact ⟨c :: body, .char hquote hslash hbody, rfl⟩

/-- **What is read as a literal is the inside of one between two quotes.** -/
theorem literalBody_of_ofLiteral? {l t : String} (h : ofLiteral? l = some t) :
    ∃ body, LiteralBody body ∧ l.toList = '"' :: (body ++ ['"']) := by
  unfold ofLiteral? at h
  split at h
  case h_1 s hs =>
    split at h
    case h_1 text r hr =>
      split at h
      case isTrue hend =>
        unfold string at hr
        split at hr
        -- the reader went through the text up to a quote, and nothing is behind it
        case h_1 units r' hunits =>
          obtain ⟨-, rfl⟩ := Prod.mk.inj (Except.ok.inj hr)
          obtain ⟨body, hbody, rfl⟩ := literalBody_of_stringFrom hunits
          obtain rfl : r' = [] := List.isEmpty_iff.mp hend
          exact ⟨body, hbody, hs⟩
        case h_2 => cases hr
      case isFalse => cases h
    case h_2 => cases h
  case h_2 => cases h

/-- The inside of a literal ends at the first quote that is not escaped. -/
theorem LiteralBody.eq_of_append_eq {a b r t : List Char} (ha : LiteralBody a)
    (hb : LiteralBody b) (h : a ++ '"' :: r = b ++ '"' :: t) : a = b ∧ r = t := by
  induction ha generalizing b with
  | nil =>
    -- the two go on alike, or one of them has an unescaped quote where the other has none
    cases hb with
    | nil => exact ⟨rfl, (List.cons.inj h).2⟩
    | char hquote _ _ => exact absurd (List.cons.inj h).1.symm hquote
    | escape c _ => exact absurd (List.cons.inj h).1 (by decide)
  | @char c s hquote hslash _ ih =>
    cases hb with
    | nil => exact absurd (List.cons.inj h).1 hquote
    | char _ _ hb =>
      obtain ⟨rfl, hrest⟩ := List.cons.inj h
      obtain ⟨rfl, hend⟩ := ih hb hrest
      exact ⟨rfl, hend⟩
    | escape d _ => exact absurd (List.cons.inj h).1 hslash
  | @escape c s _ ih =>
    cases hb with
    | nil => exact absurd (List.cons.inj h).1 (by decide)
    | char _ hslash _ => exact absurd (List.cons.inj h).1.symm hslash
    | escape d hb =>
      simp only [List.cons_append, List.cons.injEq, true_and] at h
      obtain ⟨rfl, hrest⟩ := h
      obtain ⟨rfl, hend⟩ := ih hb hrest
      exact ⟨rfl, hend⟩

/-- **A text starts with one literal at most.** -/
theorem eq_of_literals {l m t u : String} {a b : List Char} (hl : ofLiteral? l = some t)
    (hm : ofLiteral? m = some u) (h : l.toList ++ a = m.toList ++ b) : l = m ∧ a = b := by
  obtain ⟨body, hbody, hltext⟩ := literalBody_of_ofLiteral? hl
  obtain ⟨body', hbody', hmtext⟩ := literalBody_of_ofLiteral? hm
  rw [hltext, hmtext] at h
  have htail : body ++ '"' :: a = body' ++ '"' :: b := by
    simpa using h
  obtain ⟨hsame, hend⟩ := hbody.eq_of_append_eq hbody' htail
  refine ⟨String.toList_inj.mp ?_, hend⟩
  rw [hltext, hmtext, hsame]

end Typings.Json
