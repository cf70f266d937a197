import Typings.Proofs.Composition.Text
import Typings.Proofs.Scanning.Literal

/-!
# A lexer for brackets, strings and comments

The lexer knows line comments, block comments, strings with backslash escapes, and three kinds
of brackets. It reads a text sign by sign, and stops at a bracket that closes none that is open.

A text is `Neutral` if the lexer that reads it as code is back in code afterwards, inside the
same brackets. Everything that is put together is neutral, as long as names hold no sign that
means something to the lexer: one lemma for each way of putting texts together.
-/

namespace Typings

namespace Text

/-- Does a sign mean nothing to a lexer, inside a comment and outside of it? -/
def isBare (c : Char) : Bool := isPlain c && c ≠ '*'

/-- A text all of whose signs mean nothing to a lexer, such as a name. -/
def IsBare (s : String) : Prop := s.toList.all isBare = true

instance (s : String) : Decidable (IsBare s) := inferInstanceAs (Decidable (_ = true))

/-- **Identifiers with points between them are bare.** -/
theorem isBare_of_isDotted {s : String} (h : TypeSyntax.IsDotted s.toList) : IsBare s := by
  have hstar : TypeSyntax.isWordChar '*' = false := by decide
  refine List.all_eq_true.mpr fun c hc => ?_
  have hword : TypeSyntax.isWordChar c = true := (TypeSyntax.isWord_of_isDotted h).chars c hc
  have hne : c ≠ '*' := by
    rintro rfl
    rw [hstar] at hword
    cases hword
  unfold isBare
  rw [Composed.isPlain_of_isWordChar hword, decide_eq_true hne]
  rfl

end Text

namespace Lexer

/-- Where in a text the lexer is. -/
inductive Mode where
  | code
  /-- Behind a slash that may start a comment. -/
  | slash
  | lineComment
  | blockComment
  /-- In a block comment, behind a star that may end it. -/
  | star
  | string
  /-- In a string, behind a backslash. -/
  | escape
  deriving DecidableEq

/-- What the lexer remembers of a text. -/
structure State where
  mode : Mode
  /-- The brackets that are open, the innermost one first. -/
  brackets : List Char
  deriving DecidableEq

/-- In code, outside of all brackets. -/
def start : State := ⟨.code, []⟩

/-- The bracket that a bracket closes. -/
def opener? : Char → Option Char
  | ')' => some '('
  | ']' => some '['
  | '\x7d' => some '\x7b'
  | _ => none

/-- Read a sign of code. -/
def readCode (brackets : List Char) (c : Char) : Option State :=
  if c = '/' then some ⟨.slash, brackets⟩
  else if c = '"' then some ⟨.string, brackets⟩
  else if c = '(' ∨ c = '[' ∨ c = '\x7b' then some ⟨.code, c :: brackets⟩
  else
    match opener? c with
    | none => some ⟨.code, brackets⟩
    | some opener =>
      if brackets.head? = some opener then some ⟨.code, brackets.tail⟩ else none

/-- Read a sign. -/
def step : State → Char → Option State
  | ⟨.code, brackets⟩, c => readCode brackets c
  | ⟨.slash, brackets⟩, c =>
    if c = '/' then some ⟨.lineComment, brackets⟩
    else if c = '*' then some ⟨.blockComment, brackets⟩
    else readCode brackets c
  | ⟨.lineComment, brackets⟩, c => some ⟨if c = '\n' then .code else .lineComment, brackets⟩
  | ⟨.blockComment, brackets⟩, c => some ⟨if c = '*' then .star else .blockComment, brackets⟩
  | ⟨.star, brackets⟩, c =>
    some ⟨if c = '/' then .code else if c = '*' then .star else .blockComment, brackets⟩
  | ⟨.string, brackets⟩, c =>
    some ⟨if c = '"' then .code else if c = '\\' then .escape else .string, brackets⟩
  | ⟨.escape, brackets⟩, _ => some ⟨.string, brackets⟩

/-- Read a text. -/
def scan (s : State) (text : List Char) : Option State := text.foldlM step s

theorem scan_cons (s : State) (c : Char) (text : List Char) :
    scan s (c :: text) = (step s c).bind fun s => scan s text := List.foldlM_cons

theorem scan_append (s : State) (a b : List Char) :
    scan s (a ++ b) = (scan s a).bind fun s => scan s b := List.foldlM_append

/-- The lexer reads a text on from where a first part of it ends. -/
theorem scan_append_of_eq {s s' : State} {a : List Char} (h : scan s a = some s')
    (b : List Char) : scan s (a ++ b) = scan s' b := by
  rw [scan_append, h, Option.bind_some]

/-! ## Neutral texts -/

/-- Reading the text as code ends in code, inside the same brackets. -/
def Neutral (text : String) : Prop :=
  ∀ brackets, scan ⟨.code, brackets⟩ text.toList = some ⟨.code, brackets⟩

namespace Neutral

theorem append {a b : String} (ha : Neutral a) (hb : Neutral b) : Neutral (a ++ b) := by
  intro brackets
  rw [String.toList_append, scan_append_of_eq (ha brackets), hb brackets]

/-- A text between an opening bracket and the one that closes it. -/
theorem bracketed {s opening closing : String} (h : Neutral s) {o c : Char}
    (hopening : opening.toList = [o]) (hclosing : closing.toList = [c])
    (hopen : ∀ brackets, step ⟨.code, brackets⟩ o = some ⟨.code, o :: brackets⟩)
    (hclose : ∀ brackets, step ⟨.code, o :: brackets⟩ c = some ⟨.code, brackets⟩) :
    Neutral (opening ++ s ++ closing) := by
  intro brackets
  rw [String.toList_append, String.toList_append, hopening, hclosing, List.append_assoc,
    List.singleton_append, scan_cons, hopen, Option.bind_some, scan_append_of_eq (h _), scan_cons,
    hclose]
  rfl

/-- A plain sign leaves the lexer where it is. -/
theorem readCode_plain {c : Char} (h : Text.isPlain c = true) (brackets : List Char) :
    readCode brackets c = some ⟨.code, brackets⟩ := by
  have hne : ∀ d ∈ Text.delimiters, c ≠ d := by
    rintro d hd rfl
    unfold Text.isPlain at h
    rw [Bool.not_eq_true', List.contains_eq_mem, decide_eq_false_iff_not] at h
    exact h hd
  -- a sign that opens or closes something is a delimiter, and a plain sign is none
  have hopener : opener? c = none := by
    unfold opener?
    split
    · exact absurd rfl (hne ')' (by decide))
    · exact absurd rfl (hne ']' (by decide))
    · exact absurd rfl (hne '\x7d' (by decide))
    · rfl
  have hbracket : ¬ (c = '(' ∨ c = '[' ∨ c = '\x7b') := by
    rintro (h | h | h)
    · exact hne '(' (by decide) h
    · exact hne '[' (by decide) h
    · exact hne '\x7b' (by decide) h
  unfold readCode
  rw [if_neg (hne '/' (by decide)), if_neg (hne '"' (by decide)), if_neg hbracket, hopener]

theorem plain {s : String} (h : s.toList.all Text.isPlain = true) : Neutral s := by
  intro brackets
  have hplain : ∀ c ∈ s.toList, Text.isPlain c = true := List.all_eq_true.mp h
  generalize s.toList = cs at hplain
  induction cs with
  | nil => rfl
  | cons c cs ih =>
    obtain ⟨hc, hcs⟩ := List.forall_mem_cons.mp hplain
    rw [scan_cons]
    show (readCode brackets c).bind _ = _
    rw [readCode_plain hc, Option.bind_some, ih hcs]

/-! ### String literals -/

theorem scan_literalBody {s : List Char} (h : Json.LiteralBody s) (brackets : List Char) :
    scan ⟨.string, brackets⟩ s = some ⟨.string, brackets⟩ := by
  induction h with
  | nil => rfl
  | char hquote hslash _ ih =>
    rw [scan_cons, step, if_neg hquote, if_neg hslash, Option.bind_some, ih]
  | escape c _ ih =>
    rw [scan_cons, step, if_neg (by decide), if_pos rfl, Option.bind_some, scan_cons, step,
      Option.bind_some, ih]

theorem literal (s : String) : Neutral (Json.stringLiteral s) := by
  obtain ⟨body, hbody, htext⟩ := Json.toList_stringLiteral s
  intro brackets
  rw [htext, scan_cons]
  show scan ⟨.string, brackets⟩ (body ++ ['"']) = _
  rw [scan_append_of_eq (scan_literalBody hbody brackets)]
  rfl

/-! ### Comments -/

/-- **A text in which no comment ends is read inside a comment to its end.** A star in front of
it must not end the comment with its first sign. -/
theorem scan_endless {s : List Char} (h : Text.Endless s) (brackets : List Char) {mode : Mode}
    (hmode : mode = .blockComment ∨ mode = .star ∧ s.head? ≠ some '/') :
    ∃ mode', (mode' = .blockComment ∨ mode' = .star) ∧
      scan ⟨mode, brackets⟩ s = some ⟨mode', brackets⟩ := by
  induction s generalizing mode with
  | nil =>
    refine ⟨mode, ?_, rfl⟩
    rcases hmode with hmode | ⟨hmode, -⟩
    · exact Or.inl hmode
    · exact Or.inr hmode
  | cons c s ih =>
    have hrest : Text.Endless s := h.mono (List.suffix_cons c s).isInfix
    by_cases hstar : c = '*'
    · -- behind a star there is no slash
      subst hstar
      have hhead : s.head? ≠ some '/' := by
        intro hhead
        obtain ⟨t, rfl⟩ : ∃ t, s = '/' :: t := by
          cases s with
          | nil => cases hhead
          | cons d t => exact ⟨t, by rw [Option.some.inj hhead]⟩
        exact h ⟨[], t, rfl⟩
      have hstep : step ⟨mode, brackets⟩ '*' = some ⟨.star, brackets⟩ := by
        rcases hmode with rfl | ⟨rfl, -⟩ <;> rfl
      rw [scan_cons, hstep]
      exact ih hrest (Or.inr ⟨rfl, hhead⟩)
    · have hstep : step ⟨mode, brackets⟩ c = some ⟨.blockComment, brackets⟩ := by
        rcases hmode with rfl | ⟨rfl, hhead⟩
        · rw [step, if_neg hstar]
        · have hslash : c ≠ '/' := fun hc => hhead (by rw [hc]; rfl)
          rw [step, if_neg hslash, if_neg hstar]
      rw [scan_cons, hstep]
      exact ih hrest (Or.inl rfl)

theorem scan_lineComment {s : List Char} (h : '\n' ∉ s) (brackets : List Char) :
    scan ⟨.lineComment, brackets⟩ s = some ⟨.lineComment, brackets⟩ := by
  induction s with
  | nil => rfl
  | cons c s ih =>
    obtain ⟨hc, hs⟩ := not_or.mp (mt List.mem_cons.mpr h)
    rw [scan_cons, step, if_neg (Ne.symm hc), Option.bind_some, ih hs]

/-- A line comment ends with its line. -/
theorem lineComment {s : String} (h : '\n' ∉ s.toList) : Neutral (linesText ["//" ++ s]) := by
  intro brackets
  rw [linesText_singleton, String.toList_append, String.toList_append]
  show scan ⟨.lineComment, brackets⟩ (s.toList ++ ['\n']) = _
  rw [scan_append_of_eq (scan_lineComment h brackets)]
  rfl

theorem comment {s : List Char} (h : Text.Endless s) :
    Neutral (String.ofList ('/' :: '*' :: s ++ ['*', '/'])) := by
  intro brackets
  obtain ⟨mode, hmode, hscan⟩ := scan_endless h brackets (Or.inl rfl)
  rw [String.toList_ofList]
  show scan ⟨.blockComment, brackets⟩ (s ++ ['*', '/']) = _
  rw [scan_append_of_eq hscan]
  rcases hmode with rfl | rfl <;> rfl

end Neutral

open Text (IsBare)

/-! ## Texts that are put together -/

/-- The note on a type is a comment, since no comment ends in a bare name. -/
theorem neutral_note {s : String} (h : IsBare s) :
    Neutral ("/* skipped: $extend " ++ s ++ " */") := by
  -- without a star inside, the block ends where it is written to end
  have hstar : '*' ∉ " skipped: $extend ".toList ++ s.toList ++ [' '] := by
    have hname : '*' ∉ s.toList := fun hmem => by
      have hbare := List.all_eq_true.mp h '*' hmem
      exact absurd hbare (by decide)
    simp only [List.mem_append, not_or]
    exact ⟨⟨by decide, hname⟩, by decide⟩
  have hcomment := Neutral.comment (Text.endless_of_notMem hstar)
  have htext : "/* skipped: $extend " ++ s ++ " */" = String.ofList
      ('/' :: '*' :: (" skipped: $extend ".toList ++ s.toList ++ [' ']) ++ ['*', '/']) := by
    refine String.toList_inj.mp ?_
    rw [String.toList_append, String.toList_append, String.toList_ofList]
    simp
  rw [htext]
  exact hcomment

/-- **Every text that is put together from bare names is neutral.** -/
theorem neutral_of_bare {s : String} (h : Composed IsBare s) : Neutral s := by
  induction h with
  | @name s h =>
    refine Neutral.plain (List.all_eq_true.mpr fun c hc => ?_)
    exact (Bool.and_eq_true_iff.mp (List.all_eq_true.mp h c hc)).1
  | plain h => exact Neutral.plain h
  | append _ _ ihs iht => exact ihs.append iht
  -- a pair of brackets opens and closes one, whatever is open already
  | round _ ih => exact ih.bracketed rfl rfl (fun _ => rfl) (fun _ => rfl)
  | square _ ih => exact ih.bracketed rfl rfl (fun _ => rfl) (fun _ => rfl)
  | curly _ ih => exact ih.bracketed rfl rfl (fun _ => rfl) (fun _ => rfl)
  | literal s => exact Neutral.literal s
  | remark h => exact Neutral.comment h
  | note h => exact neutral_note h

end Lexer

end Typings
