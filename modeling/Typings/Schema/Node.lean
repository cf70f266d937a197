import Typings.Json.Basic

/-!
# Schema records

What schema documents say, after their JSON has been classified: a record describes one
namespace, with functions, events, types and properties, and every type is a node of one
of eleven shapes.

A schema may leave out most fields and write anything into the ones that are not looked
at before they are used. Those fields are kept as raw JSON values; a field that is left
out is `null`, except that `deprecated` and `async` are `false` then.
-/

namespace Typings.Schema

/-- What every node may say about itself, whatever its shape. -/
structure Info where
  /-- The name of a type; `null` for nodes without one. -/
  id : Json := .null
  description : Json := .null
  optional : Bool := false
  deprecated : Json := .bool false
  unsupported : Bool := false
  /-- The type that the members of a nameless node are added to. -/
  extends? : Json := .null

mutual

/-- A type of the schema. -/
structure Node where
  info : Info
  shape : Shape

/-- The eleven shapes of a type. -/
inductive Shape where
  /-- A type by its name. -/
  | reference (target : Json)
  | number (integer : Bool)
  /-- A text, or one of the listed texts. -/
  | string (members : Option (List String))
  | array (items : Option Node)
  | boolean
  | choice (options : List Node)
  | function (parameters : List Parameter) (returns : Option Node) (async : Json)
  | any
  /-- `properties` is `none` if the schema has no such field. -/
  | object (properties : Option (List Property)) (functions events : List Callable)
      (additional : Option Node)
  | constant (value : Scalar)
  /-- A `type` that means nothing here. -/
  | unknown (type : Json)

/-- A parameter of a function. -/
structure Parameter where
  name : Json
  node : Node

/-- A property of an object type or of a namespace. -/
structure Property where
  name : String
  node : Node

/-- A function of a namespace, a member function of an object type, or an event. -/
structure Callable where
  name : Json
  async : Json
  description : Json
  parameters : List Parameter
  returns : Option Node
  deprecated : Json
  unsupported : Bool

end

/-- What one document says about one namespace. -/
@[ext] structure Record where
  /-- The name of the namespace. -/
  name : String
  description : Json := .null
  functions : List Callable := []
  events : List Callable := []
  types : List Node := []
  properties : List Property := []
  /-- A namespace has one property of each name. -/
  nodup : (properties.map Property.name).Nodup := by first | exact List.nodup_nil | simp

namespace Node

def isArray (n : Node) : Bool := match n.shape with
  | .array _ => true
  | _ => false

def isObject (n : Node) : Bool := match n.shape with
  | .object .. => true
  | _ => false

/-- The parameters of a function type; any other type has none. -/
def parameters (n : Node) : List Parameter := match n.shape with
  | .function ps _ _ => ps
  | _ => []

end Node

/-- How a function hands over its result. -/
inductive Convention where
  /-- As the value of the call. -/
  | direct
  /-- As a promise about which the schema says nothing. -/
  | promise
  /-- As the argument of the parameter of this name, which is called with it. -/
  | callback (parameter : String)
  /-- The schema writes something that is no convention. -/
  | unknown
  deriving DecidableEq, Repr

/-- The convention that an `async` field announces. -/
def Convention.of : Json → Convention
  | .bool false => .direct
  | .bool true => .promise
  | .str name => .callback name
  | _ => .unknown

end Typings.Schema
