import Typings.Fault
import Typings.Text.Cut

/-!
# Documentation comments

Descriptions become comment blocks in front of the declarations they describe. Every
line is trimmed, and the end mark of a comment inside a description is broken up, so
that a description cannot end its own block.

A paragraph that is not set has no lines, and a block without lines is not written at all. What a
paragraph says may be any value of a document, since descriptions are not checked when they are
read; a value that is no text stops the writing.
-/

namespace Typings.DocComment

/-- A text in which no comment ends: a backslash parts every star from a slash behind it. -/
def sealed : List Char → List Char
  | '*' :: '/' :: s => '*' :: '\\' :: '/' :: sealed s
  | c :: s => c :: sealed s
  | [] => []

/-- The lines of a paragraph, trimmed. -/
def paragraphLines (s : List Char) : List (List Char) :=
  (Text.lines (sealed s)).map Text.trim

/-- The lines of all paragraphs. One that is not set adds none. -/
def bodyLines : List Json → Except Fault (List (List Char))
  | [] => .ok []
  | p :: ps => do
    if p.isSet then
      match p with
      | .str s => return paragraphLines s.toList ++ (← bodyLines ps)
      | v => .error (.descriptionNotText v.kind)
    else bodyLines ps

/-- A block around lines, if there are any. -/
def block (indent : String) (ls : List (List Char)) : List String :=
  if ls.isEmpty then []
  else
    [indent ++ "/**"] ++
    ls.map (fun l => String.ofList (Text.trimRight (indent.toList ++ " * ".toList ++ l))) ++
    [indent ++ " */"]

/-- The comment block of some paragraphs. -/
def render (paragraphs : List Json) (indent : String) : Except Fault (List String) :=
  block indent <$> bodyLines paragraphs

/-- The paragraph that says that something is deprecated. Only `false` says it is not. -/
def deprecation : Json → List Json
  | .bool false => []
  | .str s => [.str ("@deprecated " ++ s)]
  | _ => [.str "@deprecated"]

end Typings.DocComment
