import Typings.Expression.OfNode

/-!
# The declaration file

The file is a fixed header, the block of each namespace in table order, and the line that declares a
second name for the root of all namespaces.

**A block** holds everything that is declared in one namespace: types, functions, events and
properties, in this order. A nameless type adds members to a named one; it is declared as a second
interface of that name if both are object types, and skipped otherwise.

**An interface** is what an object type with a name is declared as: its properties, then the index
member, then its functions, then its events.

Members that are not supported are left out everywhere.
-/

namespace Typings.Declaration

open Schema (Node Property Callable Record)

/-! ## Members and interfaces -/

/-- Collect the lines of several declarations, in order. -/
def collect {α : Type} (f : α → Outcome (List String)) : List α → Outcome (List String)
  | [] => return []
  | a :: as => do
    let ls ← f a
    let rest ← collect f as
    return ls ++ rest

/-- The comment block of a declaration with a description and a word on deprecation. -/
def comment (description deprecated : Json) (indent : String) : Except Fault (List String) :=
  DocComment.render (description :: DocComment.deprecation deprecated) indent

/-- The comment block of a node. -/
def nodeComment (n : Node) (indent : String) : Except Fault (List String) :=
  comment n.info.description n.info.deprecated indent

/-- The generic interface that all events have. -/
def eventInterface : String := "WebExtEvent"

/-- The lines that declare an event under the name that `target` makes of its own. -/
def eventLines (scope : Scope) (indent : String) (target : Json → Except Fault String)
    (e : Callable) : Outcome (List String) := do
  let doc ← comment e.description e.deprecated indent
  let listener ← e.listenerType scope
  let name ← target e.name
  return doc ++ [indent ++ name ++ ": " ++ eventInterface ++ "<" ++ listener ++ ">;"]

/-- The lines of a property in an interface. -/
def propertyLines (scope : Scope) (p : Property) : Outcome (List String) := do
  let doc ← nodeComment p.node "    "
  let type ← p.node.expression scope
  return doc ++ ["    " ++ Expression.member p.name p.node.info.optional type ++ ";"]

/-- The line of the index member, if there is one. -/
def indexLines (scope : Scope) : Option Node → Outcome (List String)
  | none => return []
  | some n => do
    let type ← n.expression scope
    return ["    " ++ Expression.indexMember type ++ ";"]

/-- The properties that are supported. -/
def supportedProperties (ps : List Property) : List Property :=
  ps.filter fun p => !p.node.info.unsupported

/-- The functions or events that are supported. -/
def supported (cs : List Callable) : List Callable := cs.filter fun c => !c.unsupported

/-- The members of an object type, line by line. -/
def memberLines (scope : Scope) (n : Node) : Outcome (List String) :=
  match n.shape with
  | .object properties functions events additional => do
    let ps ← collect (propertyLines scope) (supportedProperties (properties.getD []))
    let index ← indexLines scope additional
    let fs ← collect (fun c => (c.signature scope).lines Signature.Style.method scope.current)
      (supported functions)
    let es ← collect (eventLines scope "    " PropertyKey.ofJson) (supported events)
    return ps ++ index ++ fs ++ es
  | _ => return []

/-- The interface with the members of an object type. -/
def interfaceLines (scope : Scope) (name : String) (n : Node) : Outcome (List String) := do
  let members ← memberLines scope n
  return ["  interface " ++ name ++ " \x7b"] ++ members ++ ["  \x7d"]

/-! ## Blocks -/

/-- The object type of the record that a nameless node adds members to. -/
def extended? (r : Record) (n : Node) : Option Node :=
  if n.info.extends?.isSet && n.isObject then
    (r.findType n.info.extends?).filter Node.isObject
  else none

/-- The lines of a nameless type. -/
def extensionLines (scope : Scope) (r : Record) (n : Node) : Outcome (List String) :=
  match extended? r n with
  | some _ => do
    let doc ← nodeComment n "  "
    let body ← interfaceLines scope n.info.extends?.display n
    return doc ++ body
  | none => return ["  /* skipped: $extend " ++ n.info.extends?.display ++ " */"]

/-- The lines of a named type: an interface for an object type, an alias for any other. -/
def namedTypeLines (scope : Scope) (n : Node) : Outcome (List String) := do
  let doc ← nodeComment n "  "
  let name := n.info.id.display
  if n.isObject then return doc ++ (← interfaceLines scope name n)
  else
    let type ← n.expression scope
    return doc ++ ["  type " ++ name ++ " = " ++ type.toText ++ ";"]

/-- The lines of a type. -/
def typeLines (scope : Scope) (r : Record) (n : Node) : Outcome (List String) :=
  if n.info.id = .null then extensionLines scope r n else namedTypeLines scope n

/-- The lines of all types of a record. -/
def typesLines (scope : Scope) (r : Record) : Outcome (List String) :=
  collect (typeLines scope r) (r.types.filter fun n => !n.info.unsupported)

/-- The lines of all functions of a record. -/
def functionsLines (scope : Scope) (r : Record) : Outcome (List String) :=
  collect (fun c => (c.signature scope).lines Signature.Style.declaration scope.current)
    (supported r.functions)

/-- The lines of all events of a record. -/
def eventsLines (scope : Scope) (r : Record) : Outcome (List String) :=
  collect (eventLines scope "  " fun name => .ok ("const " ++ name.display)) (supported r.events)

/-- The lines of a property of a namespace. -/
def constantLines (scope : Scope) (p : Property) : Outcome (List String) := do
  let doc ← nodeComment p.node "  "
  let type ← p.node.expression scope
  return doc ++ ["  const " ++ p.name ++ ": " ++ type.toText ++ ";"]

/-- The lines of all properties of a record. -/
def propertiesLines (scope : Scope) (r : Record) : Outcome (List String) :=
  collect (constantLines scope) (supportedProperties r.properties)

/-- The block of a namespace under the global name `root`. -/
def blockLines (t : Table) (root : String) (r : Record) : Outcome (List String) := do
  let scope : Scope := ⟨r.name, t⟩
  let doc ← DocComment.render [r.description] ""
  let types ← typesLines scope r
  let functions ← functionsLines scope r
  let events ← eventsLines scope r
  let properties ← propertiesLines scope r
  return doc ++ ["declare namespace " ++ root ++ "." ++ r.name ++ " \x7b"] ++ types ++
    functions ++ events ++ properties ++ ["\x7d"]

/-- The block of the namespace `name`, which has to be in the table. -/
def namespaceLines (t : Table) (root name : String) : Outcome (List String) := do
  let r ← t.get name
  blockLines t root r

/-! ## Files -/

/-- The lines that every file starts with. -/
def header : List String := [
  "// AUTOMATICALLY GENERATED from WebExtension API schema files.",
  "// This file should not be manually modified.",
  "",
  "interface " ++ eventInterface ++ "<TCallback extends (...args: any[]) => any> \x7b",
  "  addListener(cb: TCallback, ...params: any[]): void;",
  "  removeListener(cb: TCallback): void;",
  "  hasListener(cb: TCallback): boolean;",
  "\x7d",
  ""]

/-- The line for the second global name. There is none in a file without namespaces. -/
def aliasLines (t : Table) (root : String) : Option String → List String
  | some name =>
    if t.records.isEmpty then [] else ["declare const " ++ name ++ ": typeof " ++ root ++ ";"]
  | none => []

/-- All lines of the file. -/
def fileLines (t : Table) (root : String) (globalAlias : Option String) :
    Outcome (List String) := do
  let blocks ← collect (fun r => do return (← blockLines t root r) ++ [""]) t.records
  return header ++ blocks ++ aliasLines t root globalAlias

/-- The text of the file. -/
def fileText (t : Table) (root : String) (globalAlias : Option String) : Outcome String := do
  return "\n".intercalate (← fileLines t root globalAlias) ++ "\n"

end Typings.Declaration
