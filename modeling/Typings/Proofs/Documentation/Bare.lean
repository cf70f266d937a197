import Typings.Proofs.OverloadLists
import Typings.Proofs.ScopeDependence

/-!
# Schemas without their documentation

A schema documents itself with descriptions and with words on deprecation. Without any of
them (`bare`), at whatever depth, its types compile to the same expressions and raise the same
warnings, in the same order. What is left of a signature lacks its documentation, and nothing else.

The recursion is that of `compile`, once for each of its functions. What has to be shown is that
nothing on the way looks at a description: not the search for the callback, not the overloads, and
not the table, which finds a type by its name.
-/

namespace Typings

namespace Schema

/-! ## Leaving out the documentation -/

/-- What a node says about itself, but for its documentation. -/
def Info.bare (i : Info) : Info := { i with description := .null, deprecated := .bool false }

mutual

/-- A node without its documentation and without that of the nodes inside it. -/
def Node.bare : Node → Node
  | ⟨i, s⟩ => ⟨i.bare, s.bare⟩

def Shape.bare : Shape → Shape
  | .reference target => .reference target
  | .number integer => .number integer
  | .string members => .string members
  | .array items => .array (Node.bareOption items)
  | .boolean => .boolean
  | .choice options => .choice (Node.bareList options)
  | .function parameters returns async =>
    .function (Parameter.bareList parameters) (Node.bareOption returns) async
  | .any => .any
  | .object none functions events additional =>
    .object none (Callable.bareList functions) (Callable.bareList events)
      (Node.bareOption additional)
  | .object (some properties) functions events additional =>
    .object (some (Property.bareList properties)) (Callable.bareList functions)
      (Callable.bareList events) (Node.bareOption additional)
  | .constant value => .constant value
  | .unknown type => .unknown type

def Node.bareOption : Option Node → Option Node
  | none => none
  | some n => some n.bare

def Node.bareList : List Node → List Node
  | [] => []
  | n :: ns => n.bare :: Node.bareList ns

def Parameter.bareList : List Parameter → List Parameter
  | [] => []
  | ⟨name, n⟩ :: ps => ⟨name, n.bare⟩ :: Parameter.bareList ps

def Property.bareList : List Property → List Property
  | [] => []
  | ⟨name, n⟩ :: ps => ⟨name, n.bare⟩ :: Property.bareList ps

/-- A function without its documentation and without that of its parameters. -/
def Callable.bare : Callable → Callable
  | ⟨name, async, _, parameters, returns, _, unsupported⟩ =>
    ⟨name, async, .null, Parameter.bareList parameters, Node.bareOption returns, .bool false,
      unsupported⟩

def Callable.bareList : List Callable → List Callable
  | [] => []
  | c :: cs => c.bare :: Callable.bareList cs

end

@[simp] theorem Node.bare_info (n : Node) : n.bare.info = n.info.bare := by
  cases n
  rw [Node.bare]

section Fields

variable (c : Callable)

@[simp] theorem Callable.bare_name : c.bare.name = c.name := by
  cases c
  rw [Callable.bare]

@[simp] theorem Callable.bare_description : c.bare.description = .null := by
  cases c
  rw [Callable.bare]

@[simp] theorem Callable.bare_deprecated : c.bare.deprecated = .bool false := by
  cases c
  rw [Callable.bare]

@[simp] theorem Callable.bare_unsupported : c.bare.unsupported = c.unsupported := by
  cases c
  rw [Callable.bare]

end Fields

/-- A property without the documentation of its type. -/
def Property.bare (p : Property) : Property := ⟨p.name, p.node.bare⟩

theorem Property.bareList_eq (ps : List Property) :
    Property.bareList ps = ps.map Property.bare := by
  induction ps with
  | nil => rfl
  | cons p ps ih =>
    obtain ⟨name, n⟩ := p
    rw [Property.bareList, ih]
    rfl

theorem Callable.bareList_eq (cs : List Callable) :
    Callable.bareList cs = cs.map Callable.bare := by
  induction cs with
  | nil => rfl
  | cons c cs ih => rw [Callable.bareList, ih]; rfl

theorem Node.bareOption_eq (o : Option Node) : Node.bareOption o = o.map Node.bare := by
  cases o <;> rfl

/-- An object type keeps its members, without their documentation. -/
theorem Shape.bare_object (properties : Option (List Property)) (functions events : List Callable)
    (additional : Option Node) :
    (Shape.object properties functions events additional).bare =
      .object (properties.map (List.map Property.bare)) (functions.map Callable.bare)
        (events.map Callable.bare) (additional.map Node.bare) := by
  cases properties <;>
    simp only [Shape.bare, Option.map_none, Option.map_some, Property.bareList_eq,
      Callable.bareList_eq, Node.bareOption_eq]

theorem Node.isArray_bare (n : Node) : n.bare.isArray = n.isArray := by
  obtain ⟨i, s⟩ := n
  rw [Node.bare]
  rcases s with _ | _ | _ | _ | _ | _ | _ | _ | ⟨_ | _, _, _, _⟩ | _ | _ <;> rfl

theorem Node.isObject_bare (n : Node) : n.bare.isObject = n.isObject := by
  obtain ⟨i, s⟩ := n
  rw [Node.bare]
  rcases s with _ | _ | _ | _ | _ | _ | _ | _ | ⟨_ | _, _, _, _⟩ | _ | _ <;> rfl

/-- A record without documentation. -/
def Record.bare (r : Record) : Record where
  name := r.name
  functions := r.functions.map Callable.bare
  events := r.events.map Callable.bare
  types := r.types.map Node.bare
  properties := r.properties.map Property.bare
  nodup := by
    have : (r.properties.map Property.bare).map Property.name = r.properties.map Property.name := by
      simp [Property.bare]
    exact this ▸ r.nodup

end Schema

/-- A table without documentation. -/
def Table.bare (t : Table) : Table := t.map Schema.Record.bare fun _ => rfl

/-- A scope of the table without documentation. -/
def Scope.bare (scope : Scope) : Scope := ⟨scope.current, scope.table.bare⟩

/-! ## Signatures -/

/-- A compiled parameter without its description. -/
def Input.bare (p : Input) : Input := { p with description := .null }

/-- What callers see of a function, without the descriptions of its parameters. -/
def CallShape.bare (s : CallShape) : CallShape := { s with inputs := s.inputs.map Input.bare }

/-- A compiled function without documentation. -/
def Signature.bare (s : Signature) : Signature :=
  { s with description := .null, deprecated := .bool false, inputs := s.inputs.map Input.bare }

/-- A parameter is written without its description. -/
theorem Input.renderAll_bare (ps : List Input) :
    renderAll (ps.map Input.bare) = renderAll ps := by
  induction ps with
  | nil => rfl
  | cons p ps ih =>
    rw [List.map_cons, renderAll, renderAll, ih, List.isEmpty_map]
    rfl

namespace Signature

theorem overloads_bare (s : CallShape) :
    s.bare.overloads = s.overloads.map (List.map Input.bare) :=
  Overload.lists_map Input.bare Input.optional s.inputs

theorem renderEach_bare (style : Style) (name : Json) (returns : Expression)
    (lists : List (List Input)) :
    renderEach style name returns (lists.map (List.map Input.bare)) =
      renderEach style name returns lists := by
  induction lists with
  | nil => rfl
  | cons inputs lists ih =>
    rw [List.map_cons, renderEach, renderEach, ih, renderOne, renderOne, Input.renderAll_bare]

theorem find?_bare (s : Signature) (name : String) :
    s.bare.inputs.find? (Input.isNamed name) =
      (s.inputs.find? (Input.isNamed name)).map Input.bare := by
  rw [bare, List.find?_map]
  rfl

theorem filter_bare (s : Signature) (name : String) :
    (s.bare.inputs.filter fun p => !p.isNamed name) =
      (s.inputs.filter fun p => !p.isNamed name).map Input.bare := by
  rw [bare, List.filter_map]
  rfl

/-- **What callers see of a function does not depend on its documentation.** -/
theorem callShape_bare (current : String) (s : Signature) :
    s.bare.callShape current = CallShape.bare <$> s.callShape current := by
  unfold callShape
  rw [show s.bare.async = s.async from rfl]
  cases Schema.Convention.of s.async with
  | direct =>
    simp only [map_bind, map_pure]
    rfl
  | promise => rfl
  | unknown => rfl
  -- the callback is found by its name, which is not documentation
  | callback name =>
    simp only [find?_bare, filter_bare]
    cases s.inputs.find? (Input.isNamed name) with
    | none => rfl
    | some callback =>
      simp only [Option.map_some, map_bind, map_pure]
      rfl

/-- A signature that is written inside another type is written without its documentation. -/
theorem lines_inline_bare (current : String) (s : Signature) :
    s.bare.lines Style.inline current = s.lines Style.inline current := by
  unfold lines
  rw [callShape_bare, bind_map_left]
  simp only [overloads_bare, renderEach_bare]
  rfl

theorem type_bare (current : String) (s : Signature) : s.bare.type current = s.type current := by
  rw [type, type, lines_inline_bare]

end Signature

/-! ## Types -/

open Schema (Node Shape Parameter Property Callable)

variable {scope : Scope}

mutual

/-- **A node compiles to the same without documentation.** -/
theorem compile_bare : (n : Node) → compile scope n.bare = compile scope n
  | ⟨i, .reference target⟩ => by rw [Node.bare, Shape.bare, compile, compile]
  | ⟨_, .number _⟩ => by rw [Node.bare, Shape.bare, compile, compile]
  | ⟨_, .string _⟩ => by rw [Node.bare, Shape.bare, compile, compile]
  | ⟨_, .array none⟩ => by
    rw [Node.bare, Shape.bare, Node.bareOption, compile, compile]
    rfl
  | ⟨_, .array (some items)⟩ => by
    rw [Node.bare, Shape.bare, Node.bareOption, compile, compile, compile_bare items]
  | ⟨_, .boolean⟩ => by rw [Node.bare, Shape.bare, compile, compile]
  | ⟨_, .choice options⟩ => by
    rw [Node.bare, Shape.bare, compile, compile, compileOptions_bare options]
  | ⟨i, .function parameters returns async⟩ => by
    rw [Node.bare, Shape.bare, compile, compile, compileInputs_bare parameters,
      compileOutput_bare returns, Compiled.mk.injEq]
    -- the signature of the function type is a function's that has no name
    have htype := Signature.type_bare scope.current ⟨.str "", async, i.description, i.deprecated,
      compileInputs scope parameters, compileOutput scope returns⟩
    refine ⟨congrArg (Expression.text <$> ·) htype, ?_⟩
    rw [List.head?_map, Option.map_map]
    rfl
  | ⟨_, .any⟩ => by rw [Node.bare, Shape.bare, compile, compile]
  | ⟨_, .object none _ _ none⟩ => by
    rw [Node.bare, Shape.bare, Node.bareOption, compile, compile]
  | ⟨_, .object none _ _ (some additional)⟩ => by
    rw [Node.bare, Shape.bare, Node.bareOption, compile, compile, compile_bare additional]
  | ⟨_, .object (some properties) _ _ additional⟩ => by
    rw [Node.bare, Shape.bare, compile, compile, compileMembers_bare properties,
      compileIndex_bare additional]
  | ⟨_, .constant _⟩ => by rw [Node.bare, Shape.bare, compile, compile]
  | ⟨_, .unknown _⟩ => by rw [Node.bare, Shape.bare, compile, compile]

theorem compileOptions_bare : (ns : List Node) →
    compileOptions scope (Node.bareList ns) = compileOptions scope ns
  | [] => by rw [Node.bareList]
  | n :: ns => by
    rw [Node.bareList, compileOptions, compileOptions, compile_bare n, compileOptions_bare ns]

theorem compileMembers_bare : (ps : List Property) →
    compileMembers scope (Property.bareList ps) = compileMembers scope ps
  | [] => by rw [Property.bareList]
  | ⟨_, n⟩ :: ps => by
    rw [Property.bareList, compileMembers, compileMembers, compile_bare n, compileMembers_bare ps,
      Node.bare_info]
    rfl

theorem compileIndex_bare : (o : Option Node) →
    compileIndex scope (Node.bareOption o) = compileIndex scope o
  | none => by rw [Node.bareOption]
  | some n => by rw [Node.bareOption, compileIndex, compileIndex, compile_bare n]

theorem compileInputs_bare : (ps : List Parameter) →
    compileInputs scope (Parameter.bareList ps) = (compileInputs scope ps).map Input.bare
  | [] => by rw [Parameter.bareList, compileInputs, List.map_nil]
  | ⟨_, n⟩ :: ps => by
    rw [Parameter.bareList, compileInputs, compileInputs, compile_bare n, compileInputs_bare ps,
      Node.bare_info]
    rfl

theorem compileOutput_bare : (o : Option Node) →
    compileOutput scope (Node.bareOption o) = compileOutput scope o
  | none => by rw [Node.bareOption]
  | some n => by
    rw [Node.bareOption, compileOutput, compileOutput, compile_bare n, Node.isArray_bare]

end

/-! ## Scopes -/

theorem Schema.Record.declares_bare (r : Schema.Record) (id : Json) :
    r.bare.declares id = r.declares id := by
  unfold Schema.Record.declares Schema.Record.bare
  rw [List.any_map]
  simp only [Function.comp_def, Node.bare_info, Schema.Info.bare]

theorem Table.declaring_bare (t : Table) (id : Json) : t.bare.declaring id = t.declaring id := by
  show ((t.records.map Schema.Record.bare).filter _).map Schema.Record.name = _
  rw [List.filter_map, List.map_map]
  simp only [Function.comp_def, Schema.Record.declares_bare]
  rfl

/-- A reference is known under the same name without documentation. -/
theorem Scope.qualify_bare (target : Json) : scope.bare.qualify target = scope.qualify target := by
  have hresolve : scope.bare.table.resolve scope.bare.current target =
      scope.table.resolve scope.current target := by
    unfold Table.resolve
    rw [show scope.bare.table.declaring target = _ from Table.declaring_bare _ _]
    rfl
  unfold Scope.qualify
  rw [hresolve]
  rfl

theorem Scope.agreeOn_bare (ns : List Node) : scope.bare.AgreeOn scope ns :=
  ⟨rfl, fun _ _ target _ => Scope.qualify_bare target⟩

theorem expression_bare (n : Node) : n.bare.expression scope.bare = n.expression scope :=
  (congrArg Compiled.type (compile_bare n)).trans (expression_congr (Scope.agreeOn_bare _))

/-- **The signature of a function without documentation is its signature without it.** -/
theorem signature_bare (c : Callable) : c.bare.signature scope.bare = (c.signature scope).bare := by
  have hcompile : c.bare.signature scope.bare = (c.signature scope.bare).bare := by
    obtain ⟨name, async, description, parameters, returns, deprecated, unsupported⟩ := c
    rw [Callable.bare, Callable.signature, Callable.signature, compileInputs_bare,
      compileOutput_bare]
    rfl
  rw [hcompile, signature_congr (Scope.agreeOn_bare c.nodes)]

end Typings
