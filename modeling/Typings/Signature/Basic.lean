import Typings.Declaration.DocComment
import Typings.Expression.Basic
import Typings.Fault
import Typings.Signature.Overload

/-!
# Signatures

How functions are declared. Here the types that a function mentions have been compiled
already, so a signature is made of expressions and nothing looks into the schema.

A function that hands over its result through a callback is declared as one that returns
a promise: the callback is not among the parameters that callers see, and the type of its
first parameter is what the promise resolves to.

Where a signature stands decides how it is written: a declaration in a namespace, a
method of an interface, or a function type inside another type. A function or a parameter whose
name is a reserved word is declared with a prefix.

Compiled types are outcomes, because compiling may raise warnings. A parameter that
appears in several overloads reports its warnings in each of them.
-/

namespace Typings.Reserved

/-! ## Reserved words -/

/-- The reserved words. -/
def words : List String := [
  "break", "case", "catch", "class", "const", "continue", "debugger", "default", "delete",
  "do", "else", "enum", "export", "extends", "false", "finally", "for", "function", "if",
  "implements", "import", "in", "instanceof", "interface", "let", "new", "null", "package",
  "private", "protected", "public", "return", "static", "super", "switch", "this", "throw",
  "true", "try", "typeof", "var", "void", "while", "with", "yield"]

/-- Is a text a reserved word? -/
def isReserved (s : String) : Bool := words.contains s

/-- What stands in front of a reserved word that is declared. -/
def mark : String := "_"

/-- Is a name a reserved word? A list or object cannot be looked up. -/
def covers : Json → Except Fault Bool
  | .str s => .ok (isReserved s)
  | .scalar _ => .ok false
  | _ => .error .compositeKey

end Typings.Reserved

namespace Typings.Signature

/-! ## Styles -/

/-- How a signature is written. -/
structure Style where
  /-- Is the signature introduced by `function`? -/
  keyword : Bool := true
  /-- Is the name written? -/
  name : Bool := true
  /-- Does a comment block precede the first overload? -/
  description : Bool := true
  /-- Does an arrow stand before the result, in place of a colon? -/
  arrow : Bool := false
  /-- What ends the signature. -/
  delimiter : String := ";"
  /-- Does the signature stand between parentheses? -/
  parenthesize : Bool := false
  /-- What every line starts with. -/
  indent : String := ""

namespace Style

/-- A function of a namespace. -/
def declaration : Style := { indent := "  " }

/-- A method of an interface. -/
def method : Style := { keyword := false, indent := "    " }

/-- A function type. -/
def inline : Style :=
  { keyword := false, name := false, description := false, arrow := true, delimiter := "" }

end Style

end Typings.Signature

namespace Typings

open Schema (Convention)

/-! ## Parts and lines of a signature -/

/-- A parameter with its types compiled. -/
structure Input where
  name : Json
  optional : Bool
  description : Json
  type : Outcome Expression
  /-- The type of the first parameter, if this parameter is a function that has any. -/
  firstArgument : Option (Outcome Expression)

/-- A function with its types compiled. -/
structure Signature where
  name : Json
  async : Json
  description : Json
  deprecated : Json
  inputs : List Input
  /-- The type of a value that the call itself returns. -/
  output : Outcome Expression

namespace Input

/-- The names by which callbacks go. -/
def callbackNames : List String := ["callback", "responseCallback"]

/-- Is the parameter a callback by its name? -/
def isCallback (p : Input) : Bool :=
  match p.name with
  | .str s => callbackNames.contains s
  | _ => false

/-- Is the parameter named `s`? -/
def isNamed (s : String) (p : Input) : Bool := p.name == .str s

/-- The name under which the parameter is declared. -/
def declaredName (p : Input) : Except Fault String := do
  if (← Reserved.covers p.name) then return Reserved.mark ++ p.name.display
  else return p.name.display

/-- The mark of a parameter that may be left out at the end of a list. Only callbacks
carry it; for other optional parameters there are overloads. -/
def mark (p : Input) (trailing : Bool) : String :=
  if p.optional && p.isCallback && trailing then "?" else ""

/-- The parameter in a list, of which it is the last one if `trailing`. -/
def render (p : Input) (trailing : Bool) : Outcome String := do
  let name ← p.declaredName
  let type ← p.type
  return name ++ p.mark trailing ++ ": " ++ type.toText

/-- All parameters of a list. -/
def renderAll : List Input → Outcome (List String)
  | [] => return []
  | p :: ps => do
    let text ← p.render ps.isEmpty
    let texts ← renderAll ps
    return text :: texts

/-- The paragraphs that describe parameters. -/
def paragraphs (ps : List Input) : List Json :=
  (ps.filter fun p => p.description.isSet).map fun p =>
    .str ("@param " ++ p.name.display ++ " " ++ p.description.display)

end Input

/-- What callers see of a function: the type it returns and the parameters it takes. -/
structure CallShape where
  returns : Expression
  inputs : List Input

namespace CallShape

/-- The parameter lists of all overloads. -/
def overloads (s : CallShape) : List (List Input) := Overload.lists Input.optional s.inputs

end CallShape

namespace Signature

/-- A promise that resolves to a value of the given type. -/
def promise (value : String) : Expression := .text ("Promise<" ++ value ++ ">")

/-- A promise about which nothing is known. -/
def untypedPromise : Expression := promise "any"

/-- What the promise resolves to when the parameter `callback` receives the result. A
callback that may be left out may also be called without a result. -/
def resolvedType (callback : Input) : Outcome String :=
  match callback.firstArgument with
  | none => return "any"
  | some type => do
    let type ← type
    if callback.optional then return (← type.parenthesize).toText ++ " | undefined"
    else return type.toText

/-- What callers see of a function declared in the namespace `current`. A convention that
is unknown, or names no parameter, is reported, and nothing is said about the call. -/
def callShape (current : String) (s : Signature) : Outcome CallShape :=
  let unknown : Outcome CallShape := do
    Outcome.warn (.unknownConvention s.name s.async current)
    return ⟨untypedPromise, []⟩
  match Convention.of s.async with
  | .direct => do return ⟨← s.output, s.inputs⟩
  | .promise => return ⟨untypedPromise, s.inputs⟩
  | .callback name =>
    match s.inputs.find? (Input.isNamed name) with
    | some callback => do
      let value ← resolvedType callback
      return ⟨promise value, s.inputs.filter fun p => !p.isNamed name⟩
    | none => unknown
  | .unknown => unknown

/-- A name that is written out. -/
def nameText : Json → Except Fault String
  | .str s => .ok s
  | v => .error (.nameNotText v.kind)

/-- What precedes the parameters. -/
def head (style : Style) (name : Json) : Except Fault String := do
  let name ← if style.name then nameText name else .ok ""
  return (if style.keyword then "function " else "") ++ name

/-- One overload. -/
def renderOne (style : Style) (name : Json) (returns : Expression) (inputs : List Input) :
    Outcome String := do
  let arguments ← Input.renderAll inputs
  let head ← head style name
  let result := if style.arrow then ") => " else "): "
  let text := head ++ "(" ++ ", ".intercalate arguments ++ result ++ returns.toText
  let text := if style.parenthesize then "(" ++ text ++ ")" else text
  return style.indent ++ text ++ style.delimiter

/-- Several overloads. -/
def renderEach (style : Style) (name : Json) (returns : Expression) :
    List (List Input) → Outcome (List String)
  | [] => return []
  | inputs :: rest => do
    let line ← renderOne style name returns inputs
    let lines ← renderEach style name returns rest
    return line :: lines

/-- The paragraphs of the comment block. -/
def paragraphs (s : Signature) (shape : CallShape) : List Json :=
  s.description :: Input.paragraphs shape.inputs ++ DocComment.deprecation s.deprecated

/-- The comment block, where the style wants one. -/
def comment (style : Style) (s : Signature) (shape : CallShape) : Except Fault (List String) :=
  if style.description then DocComment.render (s.paragraphs shape) style.indent else .ok []

/-- Has the function to be declared under another name than its own? -/
def isRenamed (style : Style) (name : Json) : Except Fault Bool :=
  if style.keyword && style.name then Reserved.covers name else .ok false

/-- The line that exports a renamed function under its own name. -/
def exportLine (style : Style) (declared name : String) : String :=
  style.indent ++ "export \x7b " ++ declared ++ " as " ++ name ++ " \x7d;"

/-- All lines that declare a function: the comment block, the overloads, and the export of
a function that had to be renamed. -/
def lines (style : Style) (current : String) (s : Signature) : Outcome (List String) := do
  let shape ← s.callShape current
  let renamed ← isRenamed style s.name
  let name := if renamed then .str (Reserved.mark ++ s.name.display) else s.name
  let doc ← s.comment style shape
  let overloads ← renderEach style name shape.returns shape.overloads
  let exports := if renamed then [exportLine style name.display s.name.display] else []
  return doc ++ overloads ++ exports

/-- Several function types as one type. -/
def union : List String → String
  | [one] => one
  | many => " | ".intercalate (many.map fun s => "(" ++ s ++ ")")

/-- The type of a function, a union if it takes several overloads. -/
def type (current : String) (s : Signature) : Outcome String :=
  union <$> s.lines Style.inline current

end Signature

end Typings
