import Typings.Json.Basic

/-!
# Reading JSON

A recursive reader for JSON text. Every step returns what it read together with the rest
of the text, which is shorter; a step that fails returns the suffix of the text at which
the defect lies, from which offset, line and column follow.

The words `NaN`, `Infinity` and `-Infinity` are numbers. For a repeated key the last
value counts, in the place of the first.
-/

namespace Typings.Json

open Decimal (Binary64)

/-- What is wrong at a place in the text. -/
inductive Malformation where
  | noValue
  | noKey
  | noColon
  | noComma
  | openString
  | controlCharacter
  | badEscape
  | badUnicodeEscape
  | extraData
  | byteOrderMark
  deriving DecidableEq, Repr

/-- A malformation and the rest of the text from its place on. -/
structure Defect where
  what : Malformation
  rest : List Char
  deriving DecidableEq, Repr

/-- A text shorter than `s`. -/
abbrev Shorter (s : List Char) := { r : List Char // r.length < s.length }

/-- White space between the tokens. -/
def isSpace (c : Char) : Bool := c = ' ' || c = '\t' || c = '\n' || c = '\r'

/-- The text from its first token on. -/
def skipSpace (s : List Char) : List Char := s.dropWhile isSpace

theorem length_skipSpace_le (s : List Char) : (skipSpace s).length ≤ s.length :=
  (List.dropWhile_sublist _).length_le

/-! ## Strings -/

/-- The value of a hexadecimal digit of either case. -/
def hexValue? (c : Char) : Option Nat :=
  let n := c.toNat
  if 48 ≤ n && n ≤ 57 then some (n - 48)
  else if 97 ≤ n && n ≤ 102 then some (n - 87)
  else if 65 ≤ n && n ≤ 70 then some (n - 55)
  else none

/-- The character that a one-letter escape stands for. -/
def escaped? : Char → Option Char
  | '"' => some '"'
  | '\\' => some '\\'
  | '/' => some '/'
  | 'b' => some '\x08'
  | 'f' => some '\x0c'
  | 'n' => some '\n'
  | 'r' => some '\r'
  | 't' => some '\t'
  | _ => none

/-- Where the reader is inside a string: between characters, behind the backslash at
`place`, or behind the `u` at `place` with `missing` digits to come. -/
inductive StringState where
  | plain
  | escape (place : List Char)
  | unicode (place : List Char) (missing : Nat) (value : Nat)

/-- The characters that code units stand for: a high surrogate and the low one behind it
are one character, and a surrogate without its partner is the replacement character. -/
def joinUnits : List Nat → List Char
  | [] => []
  | [u] => [if 0xD800 ≤ u && u < 0xE000 then '\uFFFD' else Char.ofNat u]
  | u :: v :: us =>
    if 0xD800 ≤ u && u < 0xDC00 && 0xDC00 ≤ v && v < 0xE000 then
      Char.ofNat (0x10000 + (u - 0xD800) * 0x400 + (v - 0xDC00)) :: joinUnits us
    else
      (if 0xD800 ≤ u && u < 0xE000 then '\uFFFD' else Char.ofNat u) :: joinUnits (v :: us)

/-- Read a string up to and with its closing quote. `start` is the text from the opening
quote on, and `done` the code units read so far, last one first. -/
def stringFrom (start : List Char) (done : List Nat) :
    StringState → List Char → Except Defect (List Nat × List Char)
  | .plain, [] => .error ⟨.openString, start⟩
  | .plain, c :: s =>
    if c = '"' then .ok (done.reverse, s)
    else if c = '\\' then stringFrom start done (.escape (c :: s)) s
    else if c.toNat < 0x20 then .error ⟨.controlCharacter, c :: s⟩
    else stringFrom start (c.toNat :: done) .plain s
  | .escape _, [] => .error ⟨.openString, start⟩
  | .escape place, c :: s =>
    if c = 'u' then stringFrom start done (.unicode (c :: s) 4 0) s
    else match escaped? c with
      | some e => stringFrom start (e.toNat :: done) .plain s
      | none => .error ⟨.badEscape, place⟩
  | .unicode place _ _, [] => .error ⟨.badUnicodeEscape, place⟩
  | .unicode place missing value, c :: s =>
    match hexValue? c with
    | none => .error ⟨.badUnicodeEscape, place⟩
    | some d =>
      let value := value * 16 + d
      if missing ≤ 1 then
        if s.isEmpty then .error ⟨.badUnicodeEscape, place⟩
        else stringFrom start (value :: done) .plain s
      else stringFrom start done (.unicode place (missing - 1) value) s

theorem length_of_stringFrom {start : List Char} {done : List Nat} {state : StringState}
    {s : List Char} {units : List Nat} {r : List Char}
    (h : stringFrom start done state s = .ok (units, r)) : r.length < s.length := by
  induction s generalizing done state with
  | nil => cases state <;> simp [stringFrom] at h
  | cons c s ih =>
    cases state with
    | plain =>
      simp only [stringFrom] at h
      split at h
      · simp only [Except.ok.injEq, Prod.mk.injEq] at h
        simp [← h.2]
      · split at h
        · exact Nat.lt_succ_of_lt (ih h)
        · split at h
          · simp at h
          · exact Nat.lt_succ_of_lt (ih h)
    | escape place =>
      simp only [stringFrom] at h
      split at h
      · exact Nat.lt_succ_of_lt (ih h)
      · split at h
        · exact Nat.lt_succ_of_lt (ih h)
        · simp at h
    | unicode place missing value =>
      simp only [stringFrom] at h
      split at h
      · simp at h
      · split at h
        · split at h
          · simp at h
          · exact Nat.lt_succ_of_lt (ih h)
        · exact Nat.lt_succ_of_lt (ih h)

/-- Read the string whose opening quote is in front of `s`. -/
def string (s : List Char) : Except Defect (String × Shorter s) :=
  match h : stringFrom ('"' :: s) [] .plain s with
  | .ok (units, r) => .ok (String.ofList (joinUnits units), ⟨r, length_of_stringFrom h⟩)
  | .error e => .error e

/-! ## Numbers and words -/

def isDigit (c : Char) : Bool := 48 ≤ c.toNat && c.toNat ≤ 57

/-- The number that a row of digits stands for. -/
def natOf (ds : List Char) : Nat := ds.foldl (fun n c => n * 10 + (c.toNat - 48)) 0

/-- The digits of a whole part: a zero alone, or a row that starts with another digit. -/
def wholePart : List Char → List Char × List Char
  | [] => ([], [])
  | c :: s =>
    if c = '0' then ([c], s)
    else ((c :: s).takeWhile isDigit, (c :: s).dropWhile isDigit)

/-- The digits behind a point, if there is a point with a digit behind it. -/
def fraction? : List Char → Option (List Char × List Char)
  | '.' :: s =>
    let ds := s.takeWhile isDigit
    if ds.isEmpty then none else some (ds, s.dropWhile isDigit)
  | _ => none

/-- An exponent, if there is its mark with a digit behind it. -/
def exponent? : List Char → Option (Int × List Char)
  | [] => none
  | e :: s =>
    if e = 'e' || e = 'E' then
      let (negative, t) := match s with
        | '-' :: t => (true, t)
        | '+' :: t => (false, t)
        | t => (false, t)
      let ds := t.takeWhile isDigit
      if ds.isEmpty then none
      else
        let n : Int := natOf ds
        some (if negative then -n else n, t.dropWhile isDigit)
    else none

/-- The number that `s` starts with, in as many characters as possible. -/
def number? (s : List Char) : Option (Scalar × List Char) :=
  let (negative, t) := match s with
    | '-' :: t => (true, t)
    | t => (false, t)
  let (whole, t) := wholePart t
  if whole.isEmpty then none
  else
    let fraction := fraction? t
    let t := (fraction.map Prod.snd).getD t
    let exponent := exponent? t
    let t := (exponent.map Prod.snd).getD t
    if fraction.isNone && exponent.isNone then
      let n : Int := natOf whole
      some (.int (if negative then -n else n), t)
    else
      let tail := (fraction.map Prod.fst).getD []
      let power := (exponent.map Prod.fst).getD 0 - tail.length
      some (.float (.ofDecimal negative (natOf (whole ++ tail)) power), t)

/-- The words that are values. -/
def words : List (List Char × Scalar) := [
  ("null".toList, .null),
  ("true".toList, .bool true),
  ("false".toList, .bool false),
  ("NaN".toList, .float .nan),
  ("Infinity".toList, .float (.infinite false)),
  ("-Infinity".toList, .float (.infinite true))]

/-- The word that `s` starts with. -/
def word? (s : List Char) : Option (Scalar × List Char) :=
  (words.find? fun w => w.1.isPrefixOf s).map fun w => (w.2, s.drop w.1.length)

/-- The word or number that `s` starts with. -/
def atom (s : List Char) : Except Defect (Json × Shorter s) :=
  match word? s <|> number? s with
  | some (v, r) =>
    if h : r.length < s.length then .ok (.scalar v, ⟨r, h⟩) else .error ⟨.noValue, s⟩
  | none => .error ⟨.noValue, s⟩

/-! ## Values -/

mutual

/-- The value that `s` starts with. -/
def value (s : List Char) : Except Defect (Json × Shorter s) :=
  match s with
  | [] => .error ⟨.noValue, []⟩
  | '"' :: t =>
    match string t with
    | .ok (text, ⟨r, hr⟩) => .ok (.str text, ⟨r, by simp; omega⟩)
    | .error e => .error e
  | '[' :: t =>
    have ht := length_skipSpace_le t
    match _h : skipSpace t with
    | ']' :: r => .ok (.arr [], ⟨r, by simp_all; omega⟩)
    | _ =>
      match items [] (skipSpace t) with
      | .ok (xs, ⟨r, hr⟩) => .ok (.arr xs, ⟨r, by simp; omega⟩)
      | .error e => .error e
  | '{' :: t =>
    have ht := length_skipSpace_le t
    match _h : skipSpace t with
    | '}' :: r => .ok (.obj [], ⟨r, by simp_all; omega⟩)
    | _ =>
      match members [] (skipSpace t) with
      | .ok (fs, ⟨r, hr⟩) => .ok (.obj fs, ⟨r, by simp; omega⟩)
      | .error e => .error e
  | s => atom s
  termination_by (s.length, 0)
  decreasing_by
    all_goals (apply Prod.Lex.left; simp only [List.length_cons]; omega)

/-- The items of a list up to and with its closing bracket; `done` holds the ones read so
far, last one first. -/
def items (done : List Json) (s : List Char) : Except Defect (List Json × Shorter s) :=
  match value s with
  | .error e => .error e
  | .ok (x, ⟨r, hr⟩) =>
    have h₁ := length_skipSpace_le r
    match _h : skipSpace r with
    | ']' :: t => .ok ((x :: done).reverse, ⟨t, by simp_all; omega⟩)
    | ',' :: t =>
      have h₂ := length_skipSpace_le t
      match items (x :: done) (skipSpace t) with
      | .ok (xs, ⟨u, hu⟩) => .ok (xs, ⟨u, by simp_all; omega⟩)
      | .error e => .error e
    | u => .error ⟨.noComma, u⟩
  termination_by (s.length, 1)
  decreasing_by
    · apply Prod.Lex.right; omega
    · apply Prod.Lex.left; simp_all; omega

/-- The fields of an object up to and with its closing brace; `done` holds the ones read
so far. -/
def members (done : Fields) (s : List Char) : Except Defect (Fields × Shorter s) :=
  match s with
  | '"' :: t =>
    match string t with
    | .error e => .error e
    | .ok (key, ⟨r, hr⟩) =>
      have h₁ := length_skipSpace_le r
      match _h : skipSpace r with
      | ':' :: u =>
        have h₂ := length_skipSpace_le u
        match value (skipSpace u) with
        | .error e => .error e
        | .ok (x, ⟨v, hv⟩) =>
          have h₃ := length_skipSpace_le v
          match _h' : skipSpace v with
          | '}' :: w => .ok (setField key x done, ⟨w, by simp_all; omega⟩)
          | ',' :: w =>
            have h₄ := length_skipSpace_le w
            match members (setField key x done) (skipSpace w) with
            | .ok (fs, ⟨y, hy⟩) => .ok (fs, ⟨y, by simp_all; omega⟩)
            | .error e => .error e
          | w => .error ⟨.noComma, w⟩
      | u => .error ⟨.noColon, u⟩
  | s => .error ⟨.noKey, s⟩
  termination_by (s.length, 1)
  decreasing_by
    · apply Prod.Lex.left; simp_all; omega
    · apply Prod.Lex.left; simp_all; omega

end

/-- The value of a whole text. -/
def document (s : List Char) : Except Defect Json :=
  match s with
  | '\uFEFF' :: _ => .error ⟨.byteOrderMark, s⟩
  | _ =>
    match value (skipSpace s) with
    | .error e => .error e
    | .ok (v, ⟨r, _⟩) =>
      match skipSpace r with
      | [] => .ok v
      | u => .error ⟨.extraData, u⟩

/-! ## Places -/

/-- A malformation and its place: the number of characters before it, and line and column
counted from one. -/
structure LocatedDefect where
  what : Malformation
  offset : Nat
  line : Nat
  column : Nat
  deriving DecidableEq, Repr

/-- Where in `text` a defect lies. -/
def Defect.locate (text : List Char) (defect : Defect) : LocatedDefect :=
  let offset := text.length - defect.rest.length
  let before := text.take offset
  { what := defect.what
    offset
    line := before.count '\n' + 1
    column := (before.reverse.takeWhile (· != '\n')).length + 1 }

/-- Read a whole text, saying where it is malformed if it is. -/
def read (text : List Char) : Except LocatedDefect Json :=
  match document text with
  | .ok v => .ok v
  | .error e => .error (e.locate text)

/-- A malformation in words. -/
def Malformation.message : Malformation → String
  | .noValue => "Expecting value"
  | .noKey => "Expecting property name enclosed in double quotes"
  | .noColon => "Expecting ':' delimiter"
  | .noComma => "Expecting ',' delimiter"
  | .openString => "Unterminated string starting at"
  | .controlCharacter => "Invalid control character at"
  | .badEscape => "Invalid \\escape"
  | .badUnicodeEscape => "Invalid \\uXXXX escape"
  | .extraData => "Extra data"
  | .byteOrderMark => "Unexpected UTF-8 BOM (decode using utf-8-sig)"

/-- A malformation and its place in words. -/
def LocatedDefect.message (d : LocatedDefect) : String :=
  d.what.message ++ ": line " ++ toString d.line ++ " column " ++ toString d.column ++
    " (char " ++ toString d.offset ++ ")"

end Typings.Json
