import Typings.Expression.Basic
import Typings.Proofs.Scanning.Literal
import Typings.Text.Cut

/-!
# Tokens of type texts

The text of a type is read character by character into words, string literals, arrows and
single signs; white space only separates words. Numbers are words like names, so points and
the signs of exponents go on with a word.

The characters of a text need not be read in one go. A text that stands in front of another
one reads as the same tokens as it does alone, unless it ends in a word that the other one
goes on with: `Reads` says so, and all texts that types are made of are put together by its
rules.

The smallest types are names with points between their parts and literals of JSON values;
together with the keys of members they are all the texts of the program that are not put
together from others. Each of them reads as one token.
-/

namespace Typings.TypeSyntax

/-- A token. -/
inductive Token where
  /-- A name or a number. -/
  | word (w : String)
  /-- A string literal, as it is written. -/
  | quote (q : String)
  | arrow
  | sign (c : Char)
  deriving DecidableEq

/-- Can `c` be a part of a word? -/
def isWordChar (c : Char) : Bool := PropertyKey.isPart c || c = '.' || c = '+' || c = '-'

/-- What has been read so far of a token that is not complete. -/
inductive Mode where
  | plain
  | word (w : List Char)
  /-- An equals sign, which may turn out to start an arrow. -/
  | equals
  | quoted (q : List Char)
  /-- A string literal, directly behind a backslash. -/
  | escaped (q : List Char)

/-- Start a token. -/
def start (c : Char) : Mode × List Token :=
  if isWordChar c then (.word [c], [])
  else if Text.isBlank c then (.plain, [])
  else if c = '"' then (.quoted [c], [])
  else if c = '=' then (.equals, [])
  else (.plain, [.sign c])

/-- Read one character, and give the tokens that are complete by that. -/
def step : Mode → Char → Mode × List Token
  | .plain, c => start c
  | .word w, c =>
    if isWordChar c then (.word (w ++ [c]), [])
    else ((start c).1, .word (String.ofList w) :: (start c).2)
  | .equals, c => if c = '>' then (.plain, [.arrow]) else ((start c).1, .sign '=' :: (start c).2)
  | .quoted q, c =>
    if c = '"' then (.plain, [.quote (String.ofList (q ++ [c]))])
    else if c = '\\' then (.escaped (q ++ [c]), [])
    else (.quoted (q ++ [c]), [])
  | .escaped q, c => (.quoted (q ++ [c]), [])

/-- The token that the end of the text completes. A string literal that does not end leaves
its first sign. -/
def finish : Mode → List Token
  | .plain => []
  | .word w => [.word (String.ofList w)]
  | .equals => [.sign '=']
  | .quoted _ => [.sign '"']
  | .escaped _ => [.sign '"']

/-- The tokens of a text, from the middle of a token on. -/
def scan : Mode → List Char → List Token
  | m, [] => finish m
  | m, c :: s => (step m c).2 ++ scan (step m c).1 s

/-- The tokens of a text. -/
def tokens (s : String) : List Token := scan .plain s.toList

/-! ## Texts that are put together -/

/-- The text does not go on with a word that ends in front of it. -/
def NoWord (s : List Char) : Prop := ∀ c, s.head? = some c → isWordChar c = false

theorem noWord_nil : NoWord [] := by
  intro c hc
  cases hc

theorem noWord_cons {c : Char} (h : isWordChar c = false) (s : List Char) : NoWord (c :: s) := by
  intro d hd
  cases hd
  exact h

/-- A text reads as these tokens, whatever comes behind it. -/
def Closes (s : String) (ts : List Token) : Prop :=
  ∀ rest, scan .plain (s.toList ++ rest) = ts ++ scan .plain rest

/-- A text reads as these tokens, unless what comes behind it goes on with its last word. -/
def Reads (s : String) (ts : List Token) : Prop :=
  ∀ rest, NoWord rest → scan .plain (s.toList ++ rest) = ts ++ scan .plain rest

theorem Closes.reads {s : String} {ts : List Token} (h : Closes s ts) : Reads s ts :=
  fun rest _ => h rest

/-- What a text reads as is what its tokens are. -/
theorem Reads.tokens_eq {s : String} {ts : List Token} (h : Reads s ts) : tokens s = ts := by
  have hrest := h [] noWord_nil
  rwa [List.append_nil, show scan .plain [] = [] from rfl, List.append_nil] at hrest

theorem Closes.append_reads {s t : String} {xs ys : List Token} (hs : Closes s xs)
    (ht : Reads t ys) : Reads (s ++ t) (xs ++ ys) := by
  intro rest hrest
  rw [String.toList_append, List.append_assoc, hs, ht rest hrest, List.append_assoc]

/-- What a text with this first character is put behind ends there. -/
theorem noWord_append {t : List Char} {c : Char} (hc : isWordChar c = false)
    (ht : t.head? = some c) (rest : List Char) : NoWord (t ++ rest) := by
  cases t with
  | nil => cases ht
  | cons d t =>
    cases ht
    exact noWord_cons hc _

theorem Reads.append_closes {s t : String} {xs ys : List Token} {c : Char} (hs : Reads s xs)
    (hc : isWordChar c = false) (ht : t.toList.head? = some c) (hys : Closes t ys) :
    Closes (s ++ t) (xs ++ ys) := by
  intro rest
  rw [String.toList_append, List.append_assoc, hs _ (noWord_append hc ht rest), hys rest,
    List.append_assoc]

/-! ## Words -/

theorem scan_word {w : List Char} (h : ∀ c ∈ w, isWordChar c = true) (v rest : List Char) :
    scan (.word v) (w ++ rest) = scan (.word (v ++ w)) rest := by
  induction w generalizing v with
  | nil => rw [List.append_nil]; rfl
  | cons c w ih =>
    obtain ⟨hc, hw⟩ := List.forall_mem_cons.mp h
    rw [List.cons_append, scan, step, if_pos hc, List.nil_append, ih hw, List.append_assoc]
    rfl

theorem scan_word_of_noWord {rest : List Char} (h : NoWord rest) (w : List Char) :
    scan (.word w) rest = .word (String.ofList w) :: scan .plain rest := by
  cases rest with
  | nil => rfl
  | cons c rest =>
    have hc : isWordChar c = false := h c rfl
    rw [scan, step, if_neg (by simp [hc])]
    rfl

/-- A text that is a single word. -/
structure IsWord (w : List Char) : Prop where
  ne_nil : w ≠ []
  chars : ∀ c ∈ w, isWordChar c = true

theorem reads_word {w : String} (hw : IsWord w.toList) : Reads w [.word w] := by
  intro rest hrest
  have h := hw.chars
  obtain ⟨c, v, hw⟩ := List.exists_cons_of_ne_nil hw.ne_nil
  rw [hw] at h ⊢
  obtain ⟨hc, hv⟩ := List.forall_mem_cons.mp h
  have hstart : start c = (.word [c], []) := by
    rw [start, if_pos hc]
  rw [List.cons_append, scan, step, hstart, List.nil_append, scan_word hv,
    scan_word_of_noWord hrest, List.singleton_append, ← hw, String.ofList_toList]
  rfl

theorem isWordChar_of_isPart {c : Char} (h : PropertyKey.isPart c = true) :
    isWordChar c = true := by
  unfold isWordChar
  rw [h]
  rfl

/-- An identifier is a word. -/
theorem isWord_of_isIdentifier {s : List Char} (h : PropertyKey.isIdentifier s = true) :
    IsWord s := by
  refine ⟨?_, fun c hc => isWordChar_of_isPart (PropertyKey.isPart_of_isIdentifier h c hc)⟩
  rintro rfl
  exact absurd h (by decide)

theorem reads_identifier {s : String} (h : PropertyKey.isIdentifier s.toList = true) :
    Reads s [.word s] := reads_word (isWord_of_isIdentifier h)

/-! ## String literals -/

/-- Nothing inside a literal ends it. -/
theorem scan_literalBody {s : List Char} (h : Json.LiteralBody s) (q rest : List Char) :
    scan (.quoted q) (s ++ rest) = scan (.quoted (q ++ s)) rest := by
  induction h generalizing q with
  | nil => rw [List.append_nil]; rfl
  | @char c s hquote hslash _ ih =>
    rw [List.cons_append, scan, step, if_neg hquote, if_neg hslash, List.nil_append, ih,
      List.append_assoc]
    rfl
  | @escape c s _ ih =>
    rw [List.cons_append, scan, step, if_neg (by decide), if_pos rfl, List.nil_append,
      List.cons_append, scan, step, List.nil_append, ih, List.append_assoc, List.append_assoc]
    rfl

/-- A string literal is one token. -/
theorem closes_stringLiteral (s : String) :
    Closes (Json.stringLiteral s) [.quote (Json.stringLiteral s)] := by
  obtain ⟨body, hbody, htext⟩ := Json.toList_stringLiteral s
  intro rest
  have hquote : Json.stringLiteral s = String.ofList ('"' :: (body ++ ['"'])) := by
    rw [← htext, String.ofList_toList]
  rw [htext, hquote]
  show scan (.quoted ['"']) (body ++ ['"'] ++ rest) = _
  rw [List.append_assoc, scan_literalBody hbody]
  rfl

/-! ## Numbers -/

theorem isWordChar_digit {n : Nat} : ∀ c ∈ Nat.toDigits 10 n, isWordChar c = true := by
  intro c hc
  have hdigit : c.isDigit = true := Nat.isDigit_of_mem_toDigits (by decide) (by decide) hc
  refine isWordChar_of_isPart ?_
  rw [PropertyKey.isPart, hdigit, Bool.or_true]

theorem isWordChar_replicate {n : Nat} : ∀ c ∈ List.replicate n '0', isWordChar c = true := by
  intro c hc
  rw [List.eq_of_mem_replicate hc]
  decide

/-- A number without an exponent is a word. -/
theorem isWord_positional {ds : List Char} (h : ∀ c ∈ ds, isWordChar c = true) (first : Int) :
    IsWord (Decimal.positional ds first) := by
  have hpoint : isWordChar '.' = true := by decide
  have hzero : isWordChar '0' = true := by decide
  -- below one the digits stand behind zeros, and else around the point
  unfold Decimal.positional
  split
  · refine ⟨by simp, fun c hc => ?_⟩
    simp only [List.mem_append, List.mem_cons, List.not_mem_nil, or_false] at hc
    rcases hc with ((rfl | rfl) | hc) | hc
    · exact hzero
    · exact hpoint
    · exact isWordChar_replicate c hc
    · exact h c hc
  · refine ⟨by simp, fun c hc => ?_⟩
    simp only [List.mem_append, List.mem_singleton] at hc
    rcases hc with ((hc | hc) | rfl) | hc
    · exact h c (List.mem_of_mem_take hc)
    · exact isWordChar_replicate c hc
    · exact hpoint
    · split at hc
      · rw [List.mem_singleton.mp hc]
        exact hzero
      · exact h c (List.mem_of_mem_drop hc)

/-- So is one with an exponent. -/
theorem isWord_scientific (width : Nat) {ds : List Char} (h : ∀ c ∈ ds, isWordChar c = true)
    (first : Int) : IsWord (Decimal.scientific width ds first) := by
  have hexponent : ∀ c ∈ ['e', if first < 0 then '-' else '+'], isWordChar c = true := by
    split <;> exact List.all_eq_true.mp (by decide)
  unfold Decimal.scientific
  refine ⟨by simp, fun c hc => ?_⟩
  simp only [List.mem_append] at hc
  -- the first digit, the others behind a point, the sign, and the exponent behind its zeros
  rcases hc with (((hc | hc) | hc) | hc) | hc
  · exact h c (List.mem_of_mem_take hc)
  · split at hc
    · exact absurd hc (by simp)
    · rcases List.mem_cons.mp hc with rfl | hc
      · decide
      · exact h c (List.mem_of_mem_drop hc)
  · exact hexponent c hc
  · exact isWordChar_replicate c hc
  · exact isWordChar_digit c hc

theorem isWord_cons_minus {w : List Char} (h : IsWord w) : IsWord ('-' :: w) :=
  ⟨by simp, List.forall_mem_cons.mpr ⟨by decide, h.chars⟩⟩

theorem isWord_write (x : Decimal.Binary64) : IsWord (Decimal.literal.write x).toList := by
  cases x with
  | nan => exact ⟨by decide, List.all_eq_true.mp (by decide)⟩
  | infinite negative =>
    cases negative <;> exact ⟨by decide, List.all_eq_true.mp (by decide)⟩
  | finite negative mantissa exponent =>
    unfold Decimal.Layout.write
    rw [String.toList_ofList]
    -- whichever way the digits are laid out, a sign may stand in front
    have hbody : ∀ ds first, (∀ c ∈ ds, isWordChar c = true) →
        IsWord (if (Decimal.literal.positionalFrom ≤ first &&
          first < Decimal.literal.positionalBelow) = true
          then Decimal.positional ds first
          else Decimal.scientific Decimal.literal.exponentWidth ds first) := by
      intro ds first h
      split
      · exact isWord_positional h first
      · exact isWord_scientific _ h first
    split
    · exact isWord_cons_minus (hbody _ _ isWordChar_digit)
    · exact hbody _ _ isWordChar_digit

theorem isWord_repr (n : Nat) : IsWord n.repr.toList := by
  rw [Nat.toList_repr]
  exact ⟨Nat.toDigits_ne_nil, isWordChar_digit⟩

theorem isWord_int (n : Int) : IsWord (toString n).toList := by
  rw [Int.toString_eq_repr, Int.repr_eq_if]
  split
  · exact isWord_repr _
  · rw [String.toList_append]
    exact isWord_cons_minus (isWord_repr _)

/-! ## Literals -/

/-- The token of a literal. -/
def literalToken : Scalar → Token
  | .str s => .quote (Json.stringLiteral s)
  | s => .word s.literal

/-- **A literal is one token.** -/
theorem reads_literal (s : Scalar) : Reads s.literal [literalToken s] := by
  cases s with
  | null => exact reads_word ⟨by decide, List.all_eq_true.mp (by decide)⟩
  | bool b => cases b <;> exact reads_word ⟨by decide, List.all_eq_true.mp (by decide)⟩
  | int n => exact reads_word (isWord_int n)
  | float x => exact reads_word (isWord_write x)
  | str s => exact (closes_stringLiteral s).reads

/-! ## Names -/

/-- Identifiers with points between them. -/
inductive IsDotted : List Char → Prop where
  | identifier {s : List Char} (h : PropertyKey.isIdentifier s = true) : IsDotted s
  | member {s t : List Char} (h : PropertyKey.isIdentifier s = true) (ht : IsDotted t) :
    IsDotted (s ++ '.' :: t)

theorem isWord_of_isDotted {s : List Char} (h : IsDotted s) : IsWord s := by
  induction h with
  | identifier h => exact isWord_of_isIdentifier h
  | @member s t h _ ih =>
    refine ⟨by simp, fun c hc => ?_⟩
    rcases List.mem_append.mp hc with hc | hc
    · exact (isWord_of_isIdentifier h).chars c hc
    · rcases List.mem_cons.mp hc with rfl | hc
      · decide
      · exact ih.chars c hc

/-- Names behind one another, with a point between them, are a name. -/
theorem IsDotted.append {s t : List Char} (hs : IsDotted s) (ht : IsDotted t) :
    IsDotted (s ++ '.' :: t) := by
  induction hs with
  | identifier h => exact .member h ht
  | @member s u h _ ih =>
    rw [List.append_assoc]
    exact .member h ih

/-! ## Keys -/

/-- The token of the key of a member. A newline that an identifier ends with is white space. -/
def keyToken (name : String) : Token :=
  if PropertyKey.isIdentifier (PropertyKey.dropNewline name.toList)
  then .word (String.ofList (PropertyKey.dropNewline name.toList))
  else .quote (Json.stringLiteral name)

theorem reads_key (name : String) : Reads (PropertyKey.render name) [keyToken name] := by
  unfold PropertyKey.render keyToken
  split
  case isFalse => exact (closes_stringLiteral name).reads
  case isTrue h =>
    unfold PropertyKey.dropNewline at h ⊢
    split at h
    case isTrue hlast =>
      -- the newline ends the word, and is gone
      rw [if_pos hlast]
      intro rest _
      obtain ⟨cs, hcs⟩ := List.getLast?_eq_some_iff.mp hlast
      rw [hcs, List.dropLast_concat] at h ⊢
      have hword : Reads (String.ofList cs) [.word (String.ofList cs)] :=
        reads_identifier (by rwa [String.toList_ofList])
      have hscan := hword ('\n' :: rest) (noWord_cons (by decide) rest)
      rw [String.toList_ofList] at hscan
      rw [List.append_assoc, List.singleton_append, hscan]
      rfl
    case isFalse hlast =>
      rw [if_neg hlast, String.ofList_toList]
      exact reads_identifier h

end Typings.TypeSyntax
