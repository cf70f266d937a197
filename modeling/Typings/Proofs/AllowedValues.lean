import Typings.Namespace.Table
import Typings.Proofs.Subnodes

/-!
# What may stand in unchecked fields

Most fields of a schema are not looked at before they are used. What may stand in them
(`Allowed`) is a condition on every node, function and parameter by itself, so a schema meets it
if everything in it does, at whatever depth.

That values can be part of a key is such a condition: it is decided by recursion on a node, and
comes down to what is written in the nodes inside it.

A stronger condition allows less, and then every node that meets it meets the weaker one too
(`Node.meets_mono`). So a theorem can ask for the condition that it needs, and be used wherever a
stronger one is known.
-/

namespace Typings.Schema

/-- Which values may stand in the fields that are not looked at. -/
structure Allowed where
  /-- The names of functions, events and parameters. -/
  name : Json → Bool
  /-- The names of types, the types that members are added to, and descriptions. -/
  label : Json → Bool
  deprecated : Json → Bool
  async : Json → Bool
  reference : Json → Bool
  /-- A `type` that means nothing. -/
  type : Json → Bool

/-- What may stand where one condition is met may stand where the other one is. -/
structure Allowed.Implies (a b : Allowed) : Prop where
  name : ∀ {v}, a.name v = true → b.name v = true
  label : ∀ {v}, a.label v = true → b.label v = true
  deprecated : ∀ {v}, a.deprecated v = true → b.deprecated v = true
  async : ∀ {v}, a.async v = true → b.async v = true
  reference : ∀ {v}, a.reference v = true → b.reference v = true
  type : ∀ {v}, a.type v = true → b.type v = true

/-! ## Everything by itself -/

/-- Does what a node says about itself hold allowed values? -/
def Info.meets (a : Allowed) (i : Info) : Bool :=
  a.label i.id && a.label i.description && a.deprecated i.deprecated && a.label i.extends?

def Parameter.meets (a : Allowed) (p : Parameter) : Bool := a.name p.name

/-- Does a function or an event hold allowed values, apart from its types? -/
def Callable.meets (a : Allowed) (c : Callable) : Bool :=
  a.name c.name && a.async c.async && a.label c.description && a.deprecated c.deprecated &&
    c.parameters.all (Parameter.meets a)

/-- Does a shape hold allowed values, apart from the types inside it? -/
def Shape.meets (a : Allowed) : Shape → Bool
  | .reference target => a.reference target
  | .function parameters _ async => a.async async && parameters.all (Parameter.meets a)
  | .object _ functions events _ =>
    functions.all (Callable.meets a) && events.all (Callable.meets a)
  | .unknown type => a.type type
  | _ => true

/-- Does a node hold allowed values, apart from the nodes inside it? -/
def Node.meets (a : Allowed) (n : Node) : Bool := n.info.meets a && n.shape.meets a

/-- A record with allowed values all through. -/
structure Record.Meets (a : Allowed) (r : Record) : Prop where
  description : a.label r.description = true
  nodes : ∀ n ∈ r.nodes, n.meets a = true
  callables : ∀ c ∈ r.functions ++ r.events, c.meets a = true

section Monotone

variable {a b : Allowed}

theorem Info.meets_mono (hab : a.Implies b) {i : Info} (h : i.meets a = true) :
    i.meets b = true := by
  simp only [meets, Bool.and_eq_true] at h ⊢
  obtain ⟨⟨⟨hid, hdescription⟩, hdeprecated⟩, hextends⟩ := h
  exact ⟨⟨⟨hab.label hid, hab.label hdescription⟩, hab.deprecated hdeprecated⟩,
    hab.label hextends⟩

theorem Parameter.meets_mono (hab : a.Implies b) {ps : List Parameter}
    (h : ps.all (Parameter.meets a) = true) : ps.all (Parameter.meets b) = true :=
  List.all_eq_true.mpr fun p hp => hab.name (List.all_eq_true.mp h p hp)

theorem Callable.meets_mono (hab : a.Implies b) {c : Callable} (h : c.meets a = true) :
    c.meets b = true := by
  simp only [meets, Bool.and_eq_true] at h ⊢
  obtain ⟨⟨⟨⟨hname, hasync⟩, hdescription⟩, hdeprecated⟩, hparameters⟩ := h
  exact ⟨⟨⟨⟨hab.name hname, hab.async hasync⟩, hab.label hdescription⟩,
    hab.deprecated hdeprecated⟩, Parameter.meets_mono hab hparameters⟩

theorem Shape.meets_mono (hab : a.Implies b) {s : Shape} (h : s.meets a = true) :
    s.meets b = true := by
  have hcallables : ∀ {cs : List Callable}, cs.all (Callable.meets a) = true →
      cs.all (Callable.meets b) = true := fun hcs =>
    List.all_eq_true.mpr fun c hc => Callable.meets_mono hab (List.all_eq_true.mp hcs c hc)
  -- only four kinds of shapes hold values that are looked at
  cases s with
  | reference target => exact hab.reference h
  | function parameters returns async =>
    obtain ⟨hasync, hparameters⟩ := Bool.and_eq_true_iff.mp h
    exact Bool.and_eq_true_iff.mpr ⟨hab.async hasync, Parameter.meets_mono hab hparameters⟩
  | object properties functions events additional =>
    obtain ⟨hfunctions, hevents⟩ := Bool.and_eq_true_iff.mp h
    exact Bool.and_eq_true_iff.mpr ⟨hcallables hfunctions, hcallables hevents⟩
  | unknown type => exact hab.type h
  | _ => rfl

/-- **What is allowed by the stronger condition is allowed by the weaker one.** -/
theorem Node.meets_mono (hab : a.Implies b) {n : Node} (h : n.meets a = true) :
    n.meets b = true := by
  obtain ⟨hinfo, hshape⟩ := Bool.and_eq_true_iff.mp h
  exact Bool.and_eq_true_iff.mpr ⟨Info.meets_mono hab hinfo, Shape.meets_mono hab hshape⟩

end Monotone

/-! ## Keys -/

/-- Values that can be part of a key: all but lists and objects. -/
def Allowed.simple : Allowed where
  name v := !v.isComposite
  label v := !v.isComposite
  deprecated v := !v.isComposite
  async v := !v.isComposite
  reference v := !v.isComposite
  type v := !v.isComposite

mutual

/-- **A node can be part of a key exactly if every node inside it can, by itself.** -/
theorem Node.isPlain_eq : (n : Node) → n.isPlain = n.nodes.all (Node.meets .simple)
  | ⟨i, s⟩ => by
    rw [Node.isPlain, Shape.isPlain_eq s, Node.nodes, List.all_cons, ← Bool.and_assoc]
    rfl

theorem Shape.isPlain_eq : (s : Shape) →
    s.isPlain = (s.meets .simple && s.nodes.all (Node.meets .simple))
  | .reference target => by
    rw [Shape.isPlain]
    exact (Bool.and_true _).symm
  | .number _ => by rw [Shape.isPlain]; rfl
  | .string _ => by rw [Shape.isPlain]; rfl
  | .array items => by
    rw [Shape.isPlain, Node.isPlainOption_eq items, Shape.nodes]
    rfl
  | .boolean => by rw [Shape.isPlain]; rfl
  | .choice options => by
    rw [Shape.isPlain, Node.isPlainList_eq options, Shape.nodes]
    rfl
  -- what a shape asks and what its nodes ask stand in another order on the two sides
  | .function parameters returns async => by
    rw [Shape.isPlain, Parameter.isPlainList_eq parameters, Node.isPlainOption_eq returns,
      Shape.nodes, List.all_append, Shape.meets, Allowed.simple]
    ac_rfl
  | .any => by rw [Shape.isPlain]; rfl
  | .object none functions events additional => by
    rw [Shape.isPlain, Callable.isPlainList_eq functions, Callable.isPlainList_eq events,
      Node.isPlainOption_eq additional, Shape.nodes, List.all_append, List.all_append,
      Shape.meets]
    ac_rfl
  | .object (some properties) functions events additional => by
    rw [Shape.isPlain, Property.isPlainList_eq properties, Callable.isPlainList_eq functions,
      Callable.isPlainList_eq events, Node.isPlainOption_eq additional, Shape.nodes,
      List.all_append, List.all_append, List.all_append, Shape.meets]
    ac_rfl
  | .constant _ => by rw [Shape.isPlain]; rfl
  | .unknown type => by
    rw [Shape.isPlain]
    exact (Bool.and_true _).symm

theorem Node.isPlainOption_eq : (o : Option Node) →
    Node.isPlainOption o = (Node.nodesOption o).all (Node.meets .simple)
  | none => by rw [Node.isPlainOption]; rfl
  | some n => by rw [Node.isPlainOption, Node.isPlain_eq n, Node.nodesOption]

theorem Node.isPlainList_eq : (ns : List Node) →
    Node.isPlainList ns = (Node.nodesList ns).all (Node.meets .simple)
  | [] => by rw [Node.isPlainList]; rfl
  | n :: ns => by
    rw [Node.isPlainList, Node.isPlain_eq n, Node.isPlainList_eq ns, Node.nodesList,
      List.all_append]

theorem Parameter.isPlainList_eq : (ps : List Parameter) → Parameter.isPlainList ps =
    (ps.all (Parameter.meets .simple) && (Parameter.nodesList ps).all (Node.meets .simple))
  | [] => by rw [Parameter.isPlainList]; rfl
  | ⟨name, n⟩ :: ps => by
    rw [Parameter.isPlainList, Parameter.isPlain, Node.isPlain_eq n, Parameter.isPlainList_eq ps,
      Parameter.nodesList, List.all_append, List.all_cons, Parameter.meets]
    dsimp only [Allowed.simple]
    ac_rfl

theorem Property.isPlainList_eq : (ps : List Property) →
    Property.isPlainList ps = (Property.nodesList ps).all (Node.meets .simple)
  | [] => by rw [Property.isPlainList]; rfl
  | ⟨_, n⟩ :: ps => by
    rw [Property.isPlainList, Property.isPlain, Node.isPlain_eq n, Property.isPlainList_eq ps,
      Property.nodesList, List.all_append]

theorem Callable.isPlain_eq : (c : Callable) →
    c.isPlain = (c.meets .simple && c.nodes.all (Node.meets .simple))
  | ⟨name, async, description, parameters, returns, deprecated, unsupported⟩ => by
    rw [Callable.isPlain, Parameter.isPlainList_eq parameters, Node.isPlainOption_eq returns,
      Callable.nodes, List.all_append, Callable.meets]
    dsimp only [Allowed.simple]
    ac_rfl

theorem Callable.isPlainList_eq : (cs : List Callable) → Callable.isPlainList cs =
    (cs.all (Callable.meets .simple) && (Callable.nodesList cs).all (Node.meets .simple))
  | [] => by rw [Callable.isPlainList]; rfl
  | c :: cs => by
    rw [Callable.isPlainList, Callable.isPlain_eq c, Callable.isPlainList_eq cs,
      Callable.nodesList, List.all_append, List.all_cons]
    ac_rfl

end

/-- **A function has a key exactly if its name, its convention and its parameters, with all
nodes inside these, can be part of one.** -/
theorem Callable.hasFunctionKey_iff {c : Callable} : c.hasFunctionKey = true ↔
    Allowed.simple.name c.name = true ∧ Allowed.simple.async c.async = true ∧
      c.parameters.all (Parameter.meets .simple) = true ∧
      ∀ n ∈ Parameter.nodesList c.parameters, n.meets .simple = true := by
  simp only [hasFunctionKey, Parameter.isPlainList_eq, Bool.and_eq_true, List.all_eq_true,
    and_assoc, Allowed.simple]

end Typings.Schema
