import Typings.Expression.Basic
import Typings.Signature.Basic

/-!
# The expression of a node

Schema types become type expressions by recursion on the node. A function type needs of
its callback not the type but the type of that callback's first parameter, so compiling a
node gives both (`Compiled`); that way the recursion never looks two levels down.

A reference is qualified with the namespace that declares its type, unless that is the
current one. A reference that holds a point is qualified already and is taken as it is.
-/

namespace Typings

open Schema (Node Shape Parameter Property Callable)

/-! ## References -/

/-- Does a reference name its namespace? -/
def isQualified : Json → Except Fault Bool
  | .str s => .ok (Text.mentions "." s)
  | .scalar s => .error (.unreadableReference (Json.scalar s).kind)
  | v => .ok (Expression.isPart "." v)

/-- The name under which the type `target` is known in a scope. -/
def Scope.qualify (scope : Scope) (target : Json) : Outcome Expression := do
  if (← isQualified target) then
    return .ofName target
  match scope.table.resolve scope.current target with
  | none =>
    Outcome.warn (.unresolvedReference target scope.current)
    return .ofName target
  | some name =>
    if name = scope.current then return .ofName target
    else return .text (name ++ "." ++ target.display)

/-! ## Nodes -/

/-- A compiled node: its type, and the type of its first parameter if it is a function
that has any. -/
structure Compiled where
  type : Outcome Expression
  firstArgument : Option (Outcome Expression) := none

namespace Expression

/-- The type that stands for a type about which nothing is known. -/
def unknown : String := "unknown"

/-- The text of a text type: any text, or one of the members. -/
def ofMembers : Option (List String) → String
  | some (m :: ms) => " | ".intercalate ((m :: ms).map Json.stringLiteral)
  | _ => "string"

/-- A member of an object type, without a delimiter. -/
def member (name : String) (optional : Bool) (type : Expression) : String :=
  PropertyKey.render name ++ (if optional then "?" else "") ++ ": " ++ type.toText

/-- The member for all properties without a name of their own. -/
def indexMember (type : Expression) : String := "[key: string]: " ++ type.toText

/-- An object type with the given members. -/
def ofObject : List String → String
  | [] => "\x7b\x7d"
  | ms => "\x7b " ++ "; ".intercalate ms ++ " \x7d"

/-- A union of options, each text once. -/
def union (options : List String) : String :=
  " | ".intercalate (Keyed.distinct some options)

end Expression

open Expression (member indexMember)

mutual

/-- Compile a node for use in `scope`. -/
def compile (scope : Scope) : Node → Compiled
  | ⟨_, .reference target⟩ => { type := scope.qualify target }
  | ⟨_, .number _⟩ => { type := return .text "number" }
  | ⟨_, .string members⟩ => { type := return .text (Expression.ofMembers members) }
  | ⟨info, .array none⟩ => { type := do
      Outcome.warn (.arrayWithoutItems info.id scope.current)
      return .text (Expression.unknown ++ "[]") }
  | ⟨_, .array (some items)⟩ => { type := do return (← (compile scope items).type).array }
  | ⟨_, .boolean⟩ => { type := return .text "boolean" }
  | ⟨_, .choice options⟩ => { type := do
      return .text (Expression.union (← compileOptions scope options)) }
  | ⟨info, .function parameters returns async⟩ =>
    let inputs := compileInputs scope parameters
    let signature : Signature := {
      name := .str "", async, inputs
      description := info.description
      deprecated := info.deprecated
      output := compileOutput scope returns }
    { type := Expression.text <$> signature.type scope.current
      firstArgument := inputs.head?.map Input.type }
  | ⟨_, .any⟩ => { type := return .text "any" }
  | ⟨_, .object none _ _ none⟩ => { type := return .text "object" }
  | ⟨_, .object none _ _ (some additional)⟩ => { type := do
      let index ← (compile scope additional).type
      return .text (Expression.ofObject [indexMember index]) }
  | ⟨_, .object (some properties) _ _ additional⟩ => { type := do
      let members ← compileMembers scope properties
      let index ← compileIndex scope additional
      return .text (Expression.ofObject (members ++ index)) }
  | ⟨_, .constant value⟩ => { type := return .text value.literal }
  | ⟨_, .unknown _⟩ => { type := return .text Expression.unknown }

/-- The options of a union. -/
def compileOptions (scope : Scope) : List Node → Outcome (List String)
  | [] => return []
  | n :: ns => do
    let type ← (compile scope n).type
    let option ← type.option
    let options ← compileOptions scope ns
    return option :: options

/-- The members for the properties of an object type that are supported. -/
def compileMembers (scope : Scope) : List Property → Outcome (List String)
  | [] => return []
  | ⟨name, n⟩ :: ps =>
    if n.info.unsupported then compileMembers scope ps
    else do
      let type ← (compile scope n).type
      let members ← compileMembers scope ps
      return member name n.info.optional type :: members

/-- The member for properties without a name of their own, if they are admitted. -/
def compileIndex (scope : Scope) : Option Node → Outcome (List String)
  | none => return []
  | some n => do return [indexMember (← (compile scope n).type)]

/-- The parameters of a function. -/
def compileInputs (scope : Scope) : List Parameter → List Input
  | [] => []
  | ⟨name, n⟩ :: ps =>
    let compiled := compile scope n
    { name
      optional := n.info.optional
      description := n.info.description
      type := compiled.type
      firstArgument := compiled.firstArgument } :: compileInputs scope ps

/-- What a call returns by itself. Of an array nothing is said but that it is one. -/
def compileOutput (scope : Scope) : Option Node → Outcome Expression
  | none => return .text "void"
  | some n => if n.isArray then return .text "any[]" else (compile scope n).type

end

/-- The expression of a node in a scope. -/
def Schema.Node.expression (scope : Scope) (n : Node) : Outcome Expression :=
  (compile scope n).type

/-- The signature of a function or event in a scope. -/
def Schema.Callable.signature (scope : Scope) (c : Callable) : Signature where
  name := c.name
  async := c.async
  description := c.description
  deprecated := c.deprecated
  inputs := compileInputs scope c.parameters
  output := compileOutput scope c.returns

/-- The type of the functions that can listen to an event. -/
def Schema.Callable.listenerType (scope : Scope) (c : Callable) : Outcome String :=
  (c.signature scope).type scope.current

end Typings
