import Typings.Fault
import Typings.Json.Display
import Typings.Namespace.Table
import Typings.Outcome
import Typings.Text.Cut

/-!
# Type expressions

The text that stands for a type in a declaration. One kind of type has no text of its
own: a reference may be a list or an object, which then stands for itself and is written
out only where it becomes part of a larger text.

The key of an object member is written bare if it is an identifier, and as a string
literal otherwise. One newline behind an identifier is let through.
-/

namespace Typings

/-- A compiled type. -/
inductive Expression where
  | text (s : String)
  /-- A list or object in the place of a reference. -/
  | verbatim (value : Json)
  deriving DecidableEq

namespace Expression

/-- The text of an expression inside a larger one. -/
def toText : Expression → String
  | .text s => s
  | .verbatim v => v.display

@[simp] theorem toText_text (s : String) : toText (.text s) = s := rfl

/-- Is `word` a part of a value: an item of a list or a key of an object? -/
def isPart (word : String) : Json → Bool
  | .arr items => items.any (· == .str word)
  | .obj fields => Json.hasField word fields
  | .scalar _ => false

/-- Does `word` occur in the text of an expression, or is it a part of a verbatim one? -/
def mentions (word : String) : Expression → Bool
  | .text s => Text.mentions word s
  | .verbatim v => isPart word v

/-- The name of a type as an expression. -/
def ofName : Json → Expression
  | .scalar s => .text (Json.scalar s).display
  | v => .verbatim v

/-- Put a function type between parentheses, so that its result ends before a following
bar. What starts with a brace is an object type and holds together by itself. -/
def parenthesizeText (s : String) : String :=
  if Text.mentions "=>" s && !(['\x7b'].isPrefixOf s.toList) then "(" ++ s ++ ")" else s

/-- `parenthesizeText` for any expression. -/
def parenthesize : Expression → Except Fault Expression
  | .text s => .ok (.text (parenthesizeText s))
  | .verbatim v => if isPart "=>" v then .error .compositeType else .ok (.verbatim v)

/-- The array type over an expression. Unions and function types need parentheses. -/
def array (e : Expression) : Expression :=
  if e.mentions " | " || e.mentions "=>" then .text ("(" ++ e.toText ++ ")[]")
  else .text (e.toText ++ "[]")

/-- The text of an option in a union. Options are told apart by their texts. -/
def option (e : Expression) : Except Fault String := do
  match ← e.parenthesize with
  | .text s => return s
  | .verbatim _ => .error .compositeKey

end Expression

/-- Where an expression is written: inside the namespace `current` of a table. -/
structure Scope where
  current : String
  table : Table

end Typings

namespace Typings.PropertyKey

/-! ## Property keys -/

/-- Can an identifier start with `c`? -/
def isStart (c : Char) : Bool := c.isAlpha || c = '_' || c = '$'

/-- Can an identifier go on with `c`? -/
def isPart (c : Char) : Bool := isStart c || c.isDigit

/-- Is a text an identifier? -/
def isIdentifier : List Char → Bool
  | [] => false
  | c :: s => isStart c && s.all isPart

theorem isPart_of_isIdentifier {s : List Char} (h : isIdentifier s = true) :
    ∀ c ∈ s, isPart c = true := by
  cases s with
  | nil => exact fun _ hc => absurd hc List.not_mem_nil
  | cons c s =>
    obtain ⟨hc, hs⟩ := Bool.and_eq_true_iff.mp h
    exact List.forall_mem_cons.mpr ⟨Bool.or_eq_true_iff.mpr (.inl hc), List.all_eq_true.mp hs⟩

/-- A text without the newline that it may end with. -/
def dropNewline (s : List Char) : List Char :=
  if s.getLast? = some '\n' then s.dropLast else s

/-- The key for the name of a property. -/
def render (name : String) : String :=
  if isIdentifier (dropNewline name.toList) then name else Json.stringLiteral name

/-- The key for a name that has to be a text. -/
def ofJson : Json → Except Fault String
  | .str name => .ok (render name)
  | v => .error (.nameNotText v.kind)

end Typings.PropertyKey
