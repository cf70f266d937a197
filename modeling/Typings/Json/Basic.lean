import Typings.Decimal.Binary64
import Typings.Order.Keyed

/-!
# JSON values

The values that schema documents are made of. Integers are kept apart from other numbers
and may have any size; the fields of an object keep their order. Fields that a schema
leaves unchecked travel through the whole program as values of this type.

Most readers of a document do not tell a field that is missing from one that is `null`, so `field`
answers both with `null`. Those that tell them apart use `field?`.

There are two notions of when values are the same. Structural equality tells every two written
values apart and is decidable. The other notion, `Json.same`, compares what values stand for:
numbers by their numeric value, where `true` and `false` count as one and zero, and objects without
regard to the order of their fields. It is equality of canonical forms, hence an equivalence.

Not-a-number is the same as itself inside a comparison of keys, but a value that *is*
not-a-number equals nothing when asked for (`Json.equals`).
-/

namespace Typings

/-! ## Values and their fields -/

open Decimal (Binary64)

/-- A JSON value without parts. -/
inductive Scalar where
  | null
  | bool (b : Bool)
  | int (n : Int)
  | float (x : Binary64)
  | str (s : String)
  deriving DecidableEq, Repr

/-- A JSON value. -/
inductive Json where
  | scalar (s : Scalar)
  | arr (items : List Json)
  | obj (fields : List (String × Json))

namespace Json

@[match_pattern] abbrev null : Json := .scalar .null
@[match_pattern] abbrev bool (b : Bool) : Json := .scalar (.bool b)
@[match_pattern] abbrev int (n : Int) : Json := .scalar (.int n)
@[match_pattern] abbrev float (x : Binary64) : Json := .scalar (.float x)
@[match_pattern] abbrev str (s : String) : Json := .scalar (.str s)

instance : Inhabited Json := ⟨null⟩

theorem str_inj {a b : String} : str a = str b ↔ a = b := by simp

/-- The fields of an object. -/
abbrev Fields := List (String × Json)

/-- The value of the field `key`. -/
def field? (key : String) (fields : Fields) : Option Json :=
  (Keyed.find? Prod.fst key fields).map Prod.snd

/-- The value of the field `key`, or `null` if there is none. -/
def field (key : String) (fields : Fields) : Json := (field? key fields).getD null

/-- The value of the field `key`, or `false` if there is none. -/
def flag (key : String) (fields : Fields) : Json := (field? key fields).getD (bool false)

/-- Is there a field `key`? -/
def hasField (key : String) (fields : Fields) : Bool := (field? key fields).isSome

/-- Set the field `key`, keeping its place if it is there already. -/
def setField (key : String) (value : Json) (fields : Fields) : Fields :=
  Keyed.put Prod.fst (key, value) fields

/-- Does a field with this value count as set? `null`, `false`, zero, and the empty text,
list and object do not. -/
def isSet : Json → Bool
  | .scalar .null => false
  | .scalar (.bool b) => b
  | .scalar (.int n) => n != 0
  | .scalar (.float x) => !x.isZero
  | .scalar (.str s) => s != ""
  | .arr items => !items.isEmpty
  | .obj fields => !fields.isEmpty

/-- Is the value a list or an object? -/
def isComposite : Json → Bool
  | .scalar _ => false
  | _ => true

/-- The seven kinds of values. -/
inductive Kind where
  | null | bool | int | float | str | arr | obj
  deriving DecidableEq, Repr

/-- The kind of a value. -/
def kind : Json → Kind
  | .scalar .null => .null
  | .scalar (.bool _) => .bool
  | .scalar (.int _) => .int
  | .scalar (.float _) => .float
  | .scalar (.str _) => .str
  | .arr _ => .arr
  | .obj _ => .obj

/-- The word for a kind in messages. -/
def Kind.word : Kind → String
  | .null => "NoneType"
  | .bool => "bool"
  | .int => "int"
  | .float => "float"
  | .str => "str"
  | .arr => "list"
  | .obj => "dict"

end Json

/-! ## When two values are the same -/

namespace Json

mutual

/-- Structural equality as a test. -/
def beq : Json → Json → Bool
  | .scalar s, .scalar t => s == t
  | .arr xs, .arr ys => beqItems xs ys
  | .obj fs, .obj gs => beqFields fs gs
  | _, _ => false

def beqItems : List Json → List Json → Bool
  | [], [] => true
  | x :: xs, y :: ys => beq x y && beqItems xs ys
  | _, _ => false

def beqFields : List (String × Json) → List (String × Json) → Bool
  | [], [] => true
  | (k, x) :: fs, (l, y) :: gs => k == l && beq x y && beqFields fs gs
  | _, _ => false

end

mutual

theorem beq_iff : (a b : Json) → (beq a b = true ↔ a = b)
  | .scalar s, b => by cases b <;> simp [beq]
  | .arr xs, b => by cases b <;> simp [beq, beqItems_iff]
  | .obj fs, b => by cases b <;> simp [beq, beqFields_iff]

theorem beqItems_iff : (xs ys : List Json) → (beqItems xs ys = true ↔ xs = ys)
  | [], ys => by cases ys <;> simp [beqItems]
  | x :: xs, ys => by cases ys <;> simp [beqItems, beq_iff x, beqItems_iff xs]

theorem beqFields_iff : (fs gs : List (String × Json)) → (beqFields fs gs = true ↔ fs = gs)
  | [], gs => by cases gs <;> simp [beqFields]
  | (k, x) :: fs, gs => by
    rcases gs with _ | ⟨⟨l, y⟩, gs⟩ <;> simp [beqFields, beq_iff x, beqFields_iff fs]

end

instance : DecidableEq Json := fun a b => decidable_of_iff _ (beq_iff a b)

end Json

/-- The form that all scalars of one value share. -/
def Scalar.canonical : Scalar → Scalar
  | .bool b => .int (if b then 1 else 0)
  | .float x => match x.toInt? with
    | some n => .int n
    | none => .float x
  | s => s

namespace Json

/-- Put a field into its place among fields in ascending order of their names. -/
def insertSorted (field : String × Json) : List (String × Json) → List (String × Json)
  | [] => [field]
  | f :: fs => if field.1 < f.1 then field :: f :: fs else f :: insertSorted field fs

mutual

/-- The form that all values share which are the same. -/
def canonical : Json → Json
  | .scalar s => .scalar s.canonical
  | .arr items => .arr (canonicalItems items)
  | .obj fields => .obj (canonicalFields fields)

def canonicalItems : List Json → List Json
  | [] => []
  | x :: xs => canonical x :: canonicalItems xs

def canonicalFields : List (String × Json) → List (String × Json)
  | [] => []
  | (k, x) :: fs => insertSorted (k, canonical x) (canonicalFields fs)

end

/-- Do two values stand for the same thing? -/
def same (a b : Json) : Bool := a.canonical = b.canonical

/-- Is `a`, a value that is asked for, the same as `b`? -/
def equals (a b : Json) : Bool := a ≠ .float .nan && same a b

example : same (.int 1) (.bool true) = true ∧
    same (.int 1) (.float (.ofDecimal false 10 (-1))) = true := by decide +kernel

example : same (.float .nan) (.float .nan) = true ∧ equals (.float .nan) (.float .nan) = false := by
  decide +kernel

end Json

end Typings
