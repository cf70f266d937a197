import Typings.Declaration.File
import Typings.Proofs.Composition.Comment
import Typings.Proofs.KeyedLists
import Typings.Proofs.TypeSyntax.Token

/-!
# How texts are put together

All that the program writes is put together from names, string literals, comments and plain
signs, and what opens a bracket closes it again. `Composed` says so, for whatever counts as a
name. Types, signatures and declarations keep it up, so a property of all texts that are
`Composed` is one of everything that is written.

The cases are those that a reader of the file has to tell apart. A bracket is put around a text
as a whole, so what is `Composed` is balanced by its shape; and signs that mean something, such as
quotes and slashes, come in through the cases of literals and comments only.
-/

namespace Typings

namespace Text

/-- The signs that code opens or closes something with. -/
def delimiters : List Char := ['/', '"', '(', ')', '[', ']', '\x7b', '\x7d']

/-- Does a sign stand for itself, and open or close nothing? -/
def isPlain (c : Char) : Bool := !delimiters.contains c

/-- A kind of signs that no delimiter is of is plain. -/
theorem isPlain_of_kind {kind : Char → Bool}
    (hkind : (delimiters.all fun d => !kind d) = true) {c : Char} (h : kind c = true) :
    isPlain c = true := by
  unfold isPlain
  rw [Bool.not_eq_true', List.contains_eq_mem, decide_eq_false_iff_not]
  intro hmem
  have hnot := List.all_eq_true.mp hkind c hmem
  rw [h] at hnot
  cases hnot

end Text

open Text (isPlain Endless)

/-- A text that is put together from names and other pieces, in which everything that is
opened is closed. -/
inductive Composed (IsName : String → Prop) : String → Prop
  | name {s : String} (h : IsName s) : Composed IsName s
  | plain {s : String} (h : s.toList.all isPlain = true) : Composed IsName s
  | append {s t : String} (hs : Composed IsName s) (ht : Composed IsName t) :
    Composed IsName (s ++ t)
  | round {s : String} (h : Composed IsName s) : Composed IsName ("(" ++ s ++ ")")
  | square {s : String} (h : Composed IsName s) : Composed IsName ("[" ++ s ++ "]")
  | curly {s : String} (h : Composed IsName s) : Composed IsName ("\x7b" ++ s ++ "\x7d")
  | literal (s : String) : Composed IsName (Json.stringLiteral s)
  | remark {s : List Char} (h : Endless s) :
    Composed IsName (String.ofList ('/' :: '*' :: s ++ ['*', '/']))
  /-- The note that stands for members which cannot be added to the type of this name. -/
  | note {s : String} (h : IsName s) : Composed IsName ("/* skipped: $extend " ++ s ++ " */")

namespace Composed

variable {IsName : String → Prop}

/-- Texts with a plain separator between them are a text. -/
theorem intercalate {sep : String} (hsep : sep.toList.all isPlain = true) {ss : List String}
    (h : ∀ s ∈ ss, Composed IsName s) : Composed IsName (sep.intercalate ss) := by
  induction ss with
  | nil => exact .plain (by rw [String.intercalate_nil]; decide)
  | cons s ss ih =>
    obtain ⟨hs, hss⟩ := List.forall_mem_cons.mp h
    by_cases hnil : ss = []
    · subst hnil
      rw [String.intercalate_singleton]
      exact hs
    · rw [String.intercalate_cons_of_ne_nil hnil]
      exact (hs.append (.plain hsep)).append (ih hss)

/-- Blanks are plain. -/
theorem blank {s : String} (h : s.toList.all Text.isBlank = true) : Composed IsName s := by
  refine .plain (List.all_eq_true.mpr fun c hc => ?_)
  exact Text.isPlain_of_kind (by decide) (List.all_eq_true.mp h c hc)

/-! ## Words -/

theorem isPlain_of_isWordChar {c : Char} (h : TypeSyntax.isWordChar c = true) :
    isPlain c = true := Text.isPlain_of_kind (by decide) h

/-- A name or a number is plain. -/
theorem all_isPlain_of_isWord {w : List Char} (h : TypeSyntax.IsWord w) :
    w.all isPlain = true :=
  List.all_eq_true.mpr fun c hc => isPlain_of_isWordChar (h.chars c hc)

/-- **A JSON value without parts is written as a literal or as a word.** -/
theorem ofScalar (v : Scalar) : Composed IsName v.literal := by
  cases v with
  | null => exact .plain (by decide)
  | bool b => cases b <;> exact .plain (by decide)
  | int n => exact .plain (all_isPlain_of_isWord (TypeSyntax.isWord_int n))
  | float x => exact .plain (all_isPlain_of_isWord (TypeSyntax.isWord_write x))
  | str s => exact .literal s

/-- **Every key is an identifier or a literal**, whatever it is the key of. -/
theorem key (name : String) : Composed IsName (PropertyKey.render name) := by
  unfold PropertyKey.render
  split
  case isFalse => exact .literal name
  case isTrue h =>
    refine .plain ?_
    have hword := all_isPlain_of_isWord (TypeSyntax.isWord_of_isIdentifier h)
    unfold PropertyKey.dropNewline at hword
    split at hword
    case isTrue hlast =>
      -- the newline that is let through is plain as well
      obtain ⟨cs, hcs⟩ := List.getLast?_eq_some_iff.mp hlast
      rw [hcs, List.dropLast_concat] at hword
      rw [hcs, List.all_append, hword]
      rfl
    case isFalse => exact hword

/-! ## Types -/

theorem ofMembers (members : Option (List String)) :
    Composed IsName (Expression.ofMembers members) := by
  unfold Expression.ofMembers
  split
  · refine intercalate (by decide) fun s hs => ?_
    obtain ⟨m, -, rfl⟩ := List.mem_map.mp hs
    exact .literal m
  · exact .plain (by decide)

/-- What stands behind the type of the items. -/
theorem brackets : Composed IsName "[]" := by
  have hnil : Composed IsName "" := .plain (by decide)
  exact hnil.square

theorem array {s : String} (h : Composed IsName s) :
    Composed IsName (Expression.array (.text s)).toText := by
  unfold Expression.array
  split
  · have hround := h.round.append brackets
    rw [String.append_assoc] at hround
    exact hround
  · exact h.append brackets

theorem parenthesizeText {s : String} (h : Composed IsName s) :
    Composed IsName (Expression.parenthesizeText s) := by
  unfold Expression.parenthesizeText
  split
  · exact h.round
  · exact h

theorem union {options : List String} (h : ∀ s ∈ options, Composed IsName s) :
    Composed IsName (Expression.union options) :=
  intercalate (by decide) fun s hs => h s (Keyed.mem_of_mem_distinct hs)

theorem member (name : String) (optional : Bool) {type : Expression}
    (h : Composed IsName type.toText) : Composed IsName (Expression.member name optional type) := by
  have hmark : Composed IsName (if optional then "?" else "") := by
    cases optional <;> exact .plain (by decide)
  exact (((key name).append hmark).append (.plain (by decide))).append h

theorem indexMember {type : Expression} (h : Composed IsName type.toText) :
    Composed IsName (Expression.indexMember type) := by
  have hkey : Composed IsName "key: string" := .plain (by decide)
  have hcolon : Composed IsName ": " := .plain (by decide)
  exact (hkey.square.append hcolon).append h

theorem ofObject {members : List String} (h : ∀ m ∈ members, Composed IsName m) :
    Composed IsName (Expression.ofObject members) := by
  unfold Expression.ofObject
  split
  · have hnil : Composed IsName "" := .plain (by decide)
    exact hnil.curly
  · have hblank : Composed IsName " " := .plain (by decide)
    have hmembers : Composed IsName ("; ".intercalate members) := intercalate (by decide) h
    have hcurly := ((hblank.append hmembers).append hblank).curly
    -- the blanks belong to the braces in the text, and to the members here
    have htext : "\x7b" ++ (" " ++ "; ".intercalate members ++ " ") ++ "\x7d" =
        "\x7b " ++ "; ".intercalate members ++ " \x7d" := by
      rw [show "\x7b " = "\x7b" ++ " " from rfl, show " \x7d" = " " ++ "\x7d" from rfl]
      simp only [String.append_assoc]
    rwa [htext] at hcurly

end Composed

/-! ## Lines -/

/-- The text of several lines, each one with its end. -/
def linesText (ls : List String) : String := String.join (ls.map (· ++ "\n"))

@[simp] theorem linesText_nil : linesText [] = "" := rfl

theorem linesText_cons (l : String) (ls : List String) :
    linesText (l :: ls) = l ++ "\n" ++ linesText ls := by
  rw [linesText, List.map_cons, String.join_cons, linesText]

theorem linesText_singleton (l : String) : linesText [l] = l ++ "\n" := by
  rw [linesText_cons, linesText_nil, String.append_empty]

theorem linesText_append (ls ms : List String) :
    linesText (ls ++ ms) = linesText ls ++ linesText ms := by
  induction ls with
  | nil => rw [List.nil_append, linesText_nil, String.empty_append]
  | cons l ls ih =>
    rw [List.cons_append, linesText_cons, ih, linesText_cons]
    simp only [String.append_assoc]

/-- Lines with newlines between them and one at the end are lines with their ends. -/
theorem intercalate_newline {ls : List String} (h : ls ≠ []) :
    "\n".intercalate ls ++ "\n" = linesText ls := by
  induction ls with
  | nil => exact absurd rfl h
  | cons l ls ih =>
    by_cases hls : ls = []
    · subst hls
      rw [String.intercalate_singleton, linesText_singleton]
    · rw [String.intercalate_cons_of_ne_nil hls, String.append_assoc, ih hls, linesText_cons]

/-- A comment block is one comment, behind the blanks that it is indented by. -/
theorem linesText_block {indent : String} {ls : List (List Char)} (h : ls ≠ []) :
    linesText (DocComment.block indent ls) =
      indent ++ String.ofList ('/' :: '*' :: DocComment.blockBody indent ls ++ ['*', '/']) ++
        "\n" := by
  have hlines : (linesText (ls.map fun l => String.ofList (DocComment.blockLine indent l))).toList =
      ls.flatMap fun l => DocComment.blockLine indent l ++ ['\n'] := by
    induction ls with
    | nil => rfl
    | cons l ls ih =>
      by_cases hls : ls = []
      · subst hls
        simp [linesText_singleton]
      · rw [List.map_cons, linesText_cons, String.toList_append, ih hls]
        simp
  have hblock : DocComment.block indent ls = [indent ++ "/**"] ++
      (ls.map fun l => String.ofList (DocComment.blockLine indent l)) ++ [indent ++ " */"] := by
    unfold DocComment.block
    rw [if_neg (by simpa using h)]
    rfl
  rw [hblock, linesText_append, linesText_append, linesText_singleton, linesText_singleton]
  -- on either side the same characters, grouped in another way
  refine String.toList_inj.mp ?_
  simp only [String.toList_append, hlines, String.toList_ofList, DocComment.blockBody]
  simp

namespace Composed

variable {IsName : String → Prop}

theorem line {l : String} (h : Composed IsName l) : Composed IsName (linesText [l]) := by
  rw [linesText_singleton]
  exact h.append (.plain (by decide))

/-- Lines stay put together when they stand behind each other. -/
theorem lines {ls ms : List String} (hls : Composed IsName (linesText ls))
    (hms : Composed IsName (linesText ms)) : Composed IsName (linesText (ls ++ ms)) := by
  rw [linesText_append]
  exact hls.append hms

theorem each {ls : List String} (h : ∀ l ∈ ls, Composed IsName l) :
    Composed IsName (linesText ls) := by
  induction ls with
  | nil => exact .plain (by decide)
  | cons l ls ih =>
    obtain ⟨hl, hls⟩ := List.forall_mem_cons.mp h
    exact lines hl.line (ih hls)

/-- **A comment block is a comment**, whatever it says. -/
theorem block {indent : String} (hindent : indent.toList.all Text.isBlank = true)
    {ls : List (List Char)} (h : ∀ l ∈ ls, Endless l) :
    Composed IsName (linesText (DocComment.block indent ls)) := by
  -- a block without lines is nothing at all
  by_cases hls : ls = []
  · subst hls
    have hnil : DocComment.block indent [] = [] := rfl
    rw [hnil]
    exact .plain (by decide)
  · have hstar : '*' ∉ indent.toList := fun hmem =>
      absurd (List.all_eq_true.mp hindent '*' hmem) (by decide)
    rw [linesText_block hls]
    exact ((blank hindent).append (.remark (DocComment.endless_blockBody hstar h))).append
      (.plain (by decide))

end Composed

end Typings
