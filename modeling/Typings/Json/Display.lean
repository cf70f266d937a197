import Typings.Decimal.Binary64
import Typings.Json.Basic
import Typings.Text.Unicode

/-!
# Values as text

A value is written out in one of three ways.

* In a message, a text whose ends must be visible is **quoted**, with the characters that would be
  lost or would mislead written as escapes. Single quotes are used unless the text holds a single
  quote and no double quote.
* In a declaration, a value without parts is written as a **literal** of JSON. Literals of texts are
  in ASCII: a character outside it is escaped by its UTF-16 code units, so a character above U+FFFF
  takes two escapes.
* Where a name or a description was expected, any value is **displayed**. A text stands for itself.
  Inside lists and objects texts are quoted, so that the parts can be told apart.
-/

namespace Typings.Text

/-! ## Quoted texts -/

/-- The lower case hexadecimal digit of `n`, for `n < 16`. -/
def hexDigit (n : Nat) : Char := if n < 10 then Char.ofNat (48 + n) else Char.ofNat (87 + n)

/-- The last `width` hexadecimal digits of `n`, in lower case. -/
def hexDigits : Nat → Nat → List Char
  | 0, _ => []
  | width + 1, n => hexDigits width (n / 16) ++ [hexDigit (n % 16)]

/-- The quote that `s` is put between. -/
def quoteFor (s : List Char) : Char :=
  if s.contains '\'' && !s.contains '"' then '"' else '\''

/-- One character of a quoted text. A character that cannot be shown is written with the
shortest of the three numeric escapes that holds its code point. -/
def quotedChar (quote c : Char) : List Char :=
  if c = quote || c = '\\' then ['\\', c]
  else if c = '\n' then ['\\', 'n']
  else if c = '\r' then ['\\', 'r']
  else if c = '\t' then ['\\', 't']
  else if isPrintable c then [c]
  else if c.toNat < 0x100 then '\\' :: 'x' :: hexDigits 2 c.toNat
  else if c.toNat < 0x10000 then '\\' :: 'u' :: hexDigits 4 c.toNat
  else '\\' :: 'U' :: hexDigits 8 c.toNat

/-- A text between quotes. -/
def quoted (s : String) : String :=
  let quote := quoteFor s.toList
  String.ofList (quote :: s.toList.flatMap (quotedChar quote) ++ [quote])

end Typings.Text

namespace Typings

/-! ## Literals -/

namespace Json

/-- The escape of one UTF-16 code unit. -/
def unitEscape (n : Nat) : List Char := '\\' :: 'u' :: Text.hexDigits 4 n

/-- One character inside a string literal. -/
def literalChar (c : Char) : List Char :=
  if c = '"' then ['\\', '"']
  else if c = '\\' then ['\\', '\\']
  else if c = '\n' then ['\\', 'n']
  else if c = '\r' then ['\\', 'r']
  else if c = '\t' then ['\\', 't']
  else if c = '\x0c' then ['\\', 'f']
  else if c = '\x08' then ['\\', 'b']
  else if 0x20 ≤ c.toNat && c.toNat ≤ 0x7E then [c]
  else if c.toNat < 0x10000 then unitEscape c.toNat
  else
    let n := c.toNat - 0x10000
    unitEscape (0xD800 + n / 0x400) ++ unitEscape (0xDC00 + n % 0x400)

/-- The literal of a text. -/
def stringLiteral (s : String) : String :=
  String.ofList ('"' :: s.toList.flatMap literalChar ++ ['"'])

end Json

/-- The literal of a value without parts. -/
def Scalar.literal : Scalar → String
  | .null => "null"
  | .bool true => "true"
  | .bool false => "false"
  | .int n => toString n
  | .float x => Decimal.literal.write x
  | .str s => Json.stringLiteral s

example : Json.stringLiteral "a\"é😀" = "\"a\\\"\\u00e9\\ud83d\\ude00\"" := by decide +kernel

/-! ## Display -/

/-- A value without parts, texts quoted. -/
def Scalar.quoted : Scalar → String
  | .null => "None"
  | .bool true => "True"
  | .bool false => "False"
  | .int n => toString n
  | .float x => Decimal.display.write x
  | .str s => Text.quoted s

namespace Json

mutual

/-- A value as it is shown inside another one. -/
def quoted : Json → String
  | .scalar s => s.quoted
  | .arr items => "[" ++ ", ".intercalate (quotedItems items) ++ "]"
  | .obj fields => "\x7b" ++ ", ".intercalate (quotedFields fields) ++ "\x7d"

def quotedItems : List Json → List String
  | [] => []
  | x :: xs => quoted x :: quotedItems xs

def quotedFields : List (String × Json) → List String
  | [] => []
  | (k, x) :: fs => (Text.quoted k ++ ": " ++ quoted x) :: quotedFields fs

end

/-- A value as it is shown on its own. -/
def display : Json → String
  | .scalar (.str s) => s
  | v => v.quoted

@[simp] theorem display_str (s : String) : display (.str s) = s := rfl

end Json

end Typings
