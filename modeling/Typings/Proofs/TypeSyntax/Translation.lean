import Typings.Expression.OfNode
import Typings.Proofs.TypeSyntax.Token
import Typings.Proofs.TypeSyntax.Tree

/-!
# The syntax tree of a schema type

What the type of a node should say, told by recursion on the node and without writing any
text: an array is an array of its items, a choice the union of its options, a function an
arrow, or the union of several if it takes overloads, and an object an object type. Where a
callback receives the result, the tree is the promise of what the callback is called with,
or of `undefined` as well if the callback may be left out.

Like compiling, translating a node gives its type together with the type of its first
parameter.
-/

namespace Typings.TypeSyntax

open Schema (Node Shape Parameter Property Convention)

/-- A type without parts. -/
def Tree.name (s : String) : Tree := .leaf (.word s)

/-- The name under which a type is known in a scope. -/
def qualifiedName (scope : Scope) (target : Json) : String :=
  if Text.mentions "." target.display then target.display
  else
    match scope.table.resolve scope.current target with
    | none => target.display
    | some m => if m = scope.current then target.display else m ++ "." ++ target.display

/-- A parameter with its types translated. -/
structure Argument where
  name : Json
  optional : Bool
  type : Tree
  /-- The type of the first parameter, if this parameter is a function that has any. -/
  firstArgument : Option Tree

namespace Argument

/-- Is the parameter a callback by its name? -/
def isCallback (p : Argument) : Bool :=
  match p.name with
  | .str s => Input.callbackNames.contains s
  | _ => false

/-- Is the parameter named `s`? -/
def isNamed (s : String) (p : Argument) : Bool := p.name == .str s

/-- The name under which the parameter is declared. -/
def declaredName (p : Argument) : String :=
  match p.name with
  | .str s => if Reserved.isReserved s then Reserved.mark ++ s else s
  | v => v.display

/-- The label of the parameter in a list, of which it is the last one if `trailing`. Only a
callback at the end is marked as optional; for other parameters there are overloads. -/
def label (p : Argument) (trailing : Bool) : Label :=
  .named (.word p.declaredName) (p.optional && p.isCallback && trailing)

/-- A parameter list. -/
def fields : List Argument → Tree
  | [] => .nil
  | p :: ps => .field (p.label ps.isEmpty) p.type (fields ps)

/-- What a promise resolves to if this callback receives the result. -/
def resolved (p : Argument) : Tree :=
  match p.firstArgument with
  | none => .name "any"
  | some t => if p.optional then t.join (.name "undefined") else t

/-- What callers see of a function: its result and its parameters. -/
def call (async : Json) (ps : List Argument) (output : Tree) : Tree × List Argument :=
  match Convention.of async with
  | .direct => (output, ps)
  | .promise => (.promise (.name "any"), ps)
  | .callback name =>
    match ps.find? (isNamed name) with
    | some callback => (.promise callback.resolved, ps.filter fun p => !p.isNamed name)
    | none => (.promise (.name "any"), [])
  | .unknown => (.promise (.name "any"), [])

/-- The function type of a call, with one option for each overload. -/
def function (call : Tree × List Argument) : Tree :=
  .union ((Overload.lists optional call.2).map fun ps => .arrow (fields ps) call.1)

end Argument

/-- A translated node: its type, and the type of its first parameter if it is a function
that has any. -/
structure Translated where
  type : Tree
  firstArgument : Option Tree := none

/-- The members of a text type, or any text. -/
def membersTree : Option (List String) → Tree
  | some (m :: ms) => .union ((m :: ms).map fun s => .leaf (literalToken (.str s)))
  | _ => .name "string"

mutual

/-- Translate a node for use in `scope`. -/
def translate (scope : Scope) : Node → Translated
  | ⟨_, .reference target⟩ => { type := .name (qualifiedName scope target) }
  | ⟨_, .number _⟩ => { type := .name "number" }
  | ⟨_, .string members⟩ => { type := membersTree members }
  | ⟨_, .array none⟩ => { type := .array (.name "unknown") }
  | ⟨_, .array (some items)⟩ => { type := .array (translate scope items).type }
  | ⟨_, .boolean⟩ => { type := .name "boolean" }
  | ⟨_, .choice options⟩ => { type := .union (translateOptions scope options) }
  | ⟨_, .function parameters returns async⟩ =>
    let ps := translateArguments scope parameters
    { type := Argument.function (Argument.call async ps (translateOutput scope returns))
      firstArgument := ps.head?.map Argument.type }
  | ⟨_, .any⟩ => { type := .name "any" }
  | ⟨_, .object none _ _ none⟩ => { type := .name "object" }
  | ⟨_, .object none _ _ (some additional)⟩ =>
    { type := .object (.field .index (translate scope additional).type .nil) }
  | ⟨_, .object (some properties) _ _ additional⟩ =>
    { type := .object (translateMembers scope (translateIndex scope additional) properties) }
  | ⟨_, .constant value⟩ => { type := .leaf (literalToken value) }
  | ⟨_, .unknown _⟩ => { type := .name "unknown" }

/-- The options of a choice. -/
def translateOptions (scope : Scope) : List Node → List Tree
  | [] => []
  | n :: ns => (translate scope n).type :: translateOptions scope ns

/-- The members for the properties that are supported, in front of the index member. -/
def translateMembers (scope : Scope) (index : Tree) : List Property → Tree
  | [] => index
  | ⟨name, n⟩ :: ps =>
    if n.info.unsupported then translateMembers scope index ps
    else .field (.named (keyToken name) n.info.optional) (translate scope n).type
      (translateMembers scope index ps)

/-- The index member, if there is one. -/
def translateIndex (scope : Scope) : Option Node → Tree
  | none => .nil
  | some n => .field .index (translate scope n).type .nil

/-- The parameters of a function. -/
def translateArguments (scope : Scope) : List Parameter → List Argument
  | [] => []
  | ⟨name, n⟩ :: ps =>
    let translated := translate scope n
    { name
      optional := n.info.optional
      type := translated.type
      firstArgument := translated.firstArgument } :: translateArguments scope ps

/-- What a call returns by itself. Of an array nothing is said but that it is one. -/
def translateOutput (scope : Scope) : Option Node → Tree
  | none => .name "void"
  | some n => if n.isArray then .array (.name "any") else (translate scope n).type

end

/-! ## Conditions on nodes -/

mutual

/-- All nodes that take part in the type of a node have this property. -/
def Everywhere (P : Shape → Prop) : Node → Prop
  | ⟨_, .array (some items)⟩ => P (.array (some items)) ∧ Everywhere P items
  | ⟨_, .choice options⟩ => P (.choice options) ∧ EverywhereList P options
  | ⟨_, .function parameters returns async⟩ =>
    P (.function parameters returns async) ∧ EverywhereParameters P parameters ∧
      EverywhereOption P returns
  | ⟨_, .object none functions events additional⟩ =>
    P (.object none functions events additional) ∧ EverywhereOption P additional
  | ⟨_, .object (some properties) functions events additional⟩ =>
    P (.object (some properties) functions events additional) ∧
      EverywhereProperties P properties ∧ EverywhereOption P additional
  | ⟨_, s⟩ => P s

def EverywhereList (P : Shape → Prop) : List Node → Prop
  | [] => True
  | n :: ns => Everywhere P n ∧ EverywhereList P ns

def EverywhereOption (P : Shape → Prop) : Option Node → Prop
  | none => True
  | some n => Everywhere P n

def EverywhereParameters (P : Shape → Prop) : List Parameter → Prop
  | [] => True
  | ⟨_, n⟩ :: ps => Everywhere P n ∧ EverywhereParameters P ps

def EverywhereProperties (P : Shape → Prop) : List Property → Prop
  | [] => True
  | ⟨_, n⟩ :: ps => Everywhere P n ∧ EverywhereProperties P ps

end

section Conjunction

variable {P Q : Shape → Prop}

mutual

/-- Two properties that hold everywhere hold together everywhere. -/
theorem everywhere_and : (n : Node) → Everywhere P n → Everywhere Q n →
    Everywhere (fun s => P s ∧ Q s) n
  | ⟨_, .array (some items)⟩, hp, hq => ⟨⟨hp.1, hq.1⟩, everywhere_and items hp.2 hq.2⟩
  | ⟨_, .choice options⟩, hp, hq => ⟨⟨hp.1, hq.1⟩, everywhereList_and options hp.2 hq.2⟩
  | ⟨_, .function parameters returns _⟩, hp, hq =>
    ⟨⟨hp.1, hq.1⟩, everywhereParameters_and parameters hp.2.1 hq.2.1,
      everywhereOption_and returns hp.2.2 hq.2.2⟩
  | ⟨_, .object none _ _ additional⟩, hp, hq =>
    ⟨⟨hp.1, hq.1⟩, everywhereOption_and additional hp.2 hq.2⟩
  | ⟨_, .object (some properties) _ _ additional⟩, hp, hq =>
    ⟨⟨hp.1, hq.1⟩, everywhereProperties_and properties hp.2.1 hq.2.1,
      everywhereOption_and additional hp.2.2 hq.2.2⟩
  -- the others have no types inside
  | ⟨_, .reference _⟩, hp, hq => ⟨hp, hq⟩
  | ⟨_, .number _⟩, hp, hq => ⟨hp, hq⟩
  | ⟨_, .string _⟩, hp, hq => ⟨hp, hq⟩
  | ⟨_, .array none⟩, hp, hq => ⟨hp, hq⟩
  | ⟨_, .boolean⟩, hp, hq => ⟨hp, hq⟩
  | ⟨_, .any⟩, hp, hq => ⟨hp, hq⟩
  | ⟨_, .constant _⟩, hp, hq => ⟨hp, hq⟩
  | ⟨_, .unknown _⟩, hp, hq => ⟨hp, hq⟩

theorem everywhereList_and : (ns : List Node) → EverywhereList P ns → EverywhereList Q ns →
    EverywhereList (fun s => P s ∧ Q s) ns
  | [], _, _ => trivial
  | n :: ns, hp, hq => ⟨everywhere_and n hp.1 hq.1, everywhereList_and ns hp.2 hq.2⟩

theorem everywhereOption_and : (o : Option Node) → EverywhereOption P o → EverywhereOption Q o →
    EverywhereOption (fun s => P s ∧ Q s) o
  | none, _, _ => trivial
  | some n, hp, hq => everywhere_and n hp hq

theorem everywhereParameters_and : (ps : List Parameter) → EverywhereParameters P ps →
    EverywhereParameters Q ps → EverywhereParameters (fun s => P s ∧ Q s) ps
  | [], _, _ => trivial
  | ⟨_, n⟩ :: ps, hp, hq => ⟨everywhere_and n hp.1 hq.1, everywhereParameters_and ps hp.2 hq.2⟩

theorem everywhereProperties_and : (ps : List Property) → EverywhereProperties P ps →
    EverywhereProperties Q ps → EverywhereProperties (fun s => P s ∧ Q s) ps
  | [], _, _ => trivial
  | ⟨_, n⟩ :: ps, hp, hq => ⟨everywhere_and n hp.1 hq.1, everywhereProperties_and ps hp.2 hq.2⟩

end

end Conjunction

/-- References are identifiers with points between them, and names of parameters are
identifiers. -/
def HasNames : Shape → Prop
  | .reference target => ∃ r, target = .str r ∧ IsDotted r.toList
  | .function parameters _ _ => ∀ p ∈ parameters,
    ∃ s, p.name = .str s ∧ PropertyKey.isIdentifier s.toList = true
  | _ => True

/-- A namespace that a reference is qualified with is named like one. -/
def QualifiesWithNames (scope : Scope) : Shape → Prop
  | .reference target => Text.mentions "." target.display = false →
    ∀ m, scope.table.resolve scope.current target = some m →
      m = scope.current ∨ IsDotted m.toList
  | _ => True

/-- There is something to choose from. -/
def HasOptions : Shape → Prop
  | .choice options => options ≠ []
  | _ => True

end Typings.TypeSyntax
