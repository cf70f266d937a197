import Typings.Schema.Equality

/-!
# What makes two declarations the same

When records are merged, functions, events and types are told apart by keys. A key keeps
what identifies a declaration, in canonical form, so two keys are equal exactly if the
fields they come from stand for the same values. A list or object among those fields
cannot be part of a key.

Which fields a key keeps differs: a function is known by its name, its convention and its
parameters, an event by its convention and name, and a type by its name. Descriptions inside of
parameters count, as they are part of the fields.
-/

namespace Typings.Schema

/-! ## Canonical forms -/

/-- The canonical form of what a node says about itself. -/
def Info.canonical (i : Info) : Info :=
  { i with
    id := i.id.canonical
    description := i.description.canonical
    deprecated := i.deprecated.canonical
    extends? := i.extends?.canonical }

mutual

/-- A node with all its unchecked values in canonical form. -/
def Node.canonical : Node → Node
  | ⟨i, s⟩ => ⟨i.canonical, s.canonical⟩

def Shape.canonical : Shape → Shape
  | .reference target => .reference target.canonical
  | .number integer => .number integer
  | .string members => .string members
  | .array items => .array (Node.canonicalOption items)
  | .boolean => .boolean
  | .choice options => .choice (Node.canonicalList options)
  | .function parameters returns async =>
    .function (Parameter.canonicalList parameters) (Node.canonicalOption returns) async.canonical
  | .any => .any
  | .object none functions events additional =>
    .object none (Callable.canonicalList functions) (Callable.canonicalList events)
      (Node.canonicalOption additional)
  | .object (some properties) functions events additional =>
    .object (some (Property.canonicalList properties)) (Callable.canonicalList functions)
      (Callable.canonicalList events) (Node.canonicalOption additional)
  | .constant value => .constant value.canonical
  | .unknown type => .unknown type.canonical

def Node.canonicalOption : Option Node → Option Node
  | none => none
  | some n => some n.canonical

def Node.canonicalList : List Node → List Node
  | [] => []
  | n :: ns => n.canonical :: Node.canonicalList ns

def Parameter.canonical : Parameter → Parameter
  | ⟨name, n⟩ => ⟨name.canonical, n.canonical⟩

def Parameter.canonicalList : List Parameter → List Parameter
  | [] => []
  | p :: ps => p.canonical :: Parameter.canonicalList ps

def Property.canonical : Property → Property
  | ⟨name, n⟩ => ⟨name, n.canonical⟩

def Property.canonicalList : List Property → List Property
  | [] => []
  | p :: ps => p.canonical :: Property.canonicalList ps

def Callable.canonical : Callable → Callable
  | ⟨name, async, description, parameters, returns, deprecated, unsupported⟩ =>
    ⟨name.canonical, async.canonical, description.canonical,
      Parameter.canonicalList parameters, Node.canonicalOption returns, deprecated.canonical,
      unsupported⟩

def Callable.canonicalList : List Callable → List Callable
  | [] => []
  | c :: cs => c.canonical :: Callable.canonicalList cs

end

/-! ## Values that can be part of a key -/

/-- Is no unchecked value among what a node says about itself a list or an object? -/
def Info.isPlain (i : Info) : Bool :=
  !i.id.isComposite && !i.description.isComposite && !i.deprecated.isComposite &&
    !i.extends?.isComposite

mutual

/-- Is no unchecked value anywhere in a node a list or an object? -/
def Node.isPlain : Node → Bool
  | ⟨i, s⟩ => i.isPlain && s.isPlain

def Shape.isPlain : Shape → Bool
  | .reference target => !target.isComposite
  | .number _ => true
  | .string _ => true
  | .array items => Node.isPlainOption items
  | .boolean => true
  | .choice options => Node.isPlainList options
  | .function parameters returns async =>
    Parameter.isPlainList parameters && Node.isPlainOption returns && !async.isComposite
  | .any => true
  | .object none functions events additional =>
    Callable.isPlainList functions && Callable.isPlainList events &&
      Node.isPlainOption additional
  | .object (some properties) functions events additional =>
    Property.isPlainList properties && Callable.isPlainList functions &&
      Callable.isPlainList events && Node.isPlainOption additional
  | .constant _ => true
  | .unknown type => !type.isComposite

def Node.isPlainOption : Option Node → Bool
  | none => true
  | some n => n.isPlain

def Node.isPlainList : List Node → Bool
  | [] => true
  | n :: ns => n.isPlain && Node.isPlainList ns

def Parameter.isPlain : Parameter → Bool
  | ⟨name, n⟩ => !name.isComposite && n.isPlain

def Parameter.isPlainList : List Parameter → Bool
  | [] => true
  | p :: ps => p.isPlain && Parameter.isPlainList ps

def Property.isPlain : Property → Bool
  | ⟨_, n⟩ => n.isPlain

def Property.isPlainList : List Property → Bool
  | [] => true
  | p :: ps => p.isPlain && Property.isPlainList ps

def Callable.isPlain : Callable → Bool
  | ⟨name, async, description, parameters, returns, deprecated, _⟩ =>
    !name.isComposite && !async.isComposite && !description.isComposite &&
      Parameter.isPlainList parameters && Node.isPlainOption returns && !deprecated.isComposite

def Callable.isPlainList : List Callable → Bool
  | [] => true
  | c :: cs => c.isPlain && Callable.isPlainList cs

end

/-! ## Keys -/

/-- What identifies a function: its name, its convention and its parameters. -/
structure FunctionKey where
  name : Json
  async : Json
  parameters : List Parameter
  deriving DecidableEq

/-- What identifies an event: its convention and its name. -/
structure EventKey where
  async : Json
  name : Json
  deriving DecidableEq

/-- The key of a function. -/
def Callable.functionKey (c : Callable) : FunctionKey where
  name := c.name.canonical
  async := c.async.canonical
  parameters := Parameter.canonicalList c.parameters

/-- The key of an event. -/
def Callable.eventKey (c : Callable) : EventKey where
  async := c.async.canonical
  name := c.name.canonical

/-- The key of a type, its name; a nameless type has none. -/
def Node.typeKey (n : Node) : Option Json :=
  match n.info.id with
  | .null => none
  | id => some id.canonical

/-- Can a function be told apart by its key? -/
def Callable.hasFunctionKey (c : Callable) : Bool :=
  !c.name.isComposite && !c.async.isComposite && Parameter.isPlainList c.parameters

/-- Can an event be told apart by its key? -/
def Callable.hasEventKey (c : Callable) : Bool := !c.name.isComposite && !c.async.isComposite

/-- Can a type be told apart by its key? -/
def Node.hasTypeKey (n : Node) : Bool := !n.info.id.isComposite

end Typings.Schema
