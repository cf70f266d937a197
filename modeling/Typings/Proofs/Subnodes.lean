import Typings.Schema.Node

/-!
# The nodes inside a node

A condition on a schema often is one on every type that it mentions, at whatever depth and
whether it is written out or not. These are the nodes of a record: each type, the types of
its members and parameters, what its functions return, and so on, in the order of the schema.

The row of a node starts with the node itself, and what is inside follows part by part. A condition
on all nodes of a row is thus handed down by splitting the row, which is how the inductions over
schemas are done.
-/

namespace Typings.Schema

mutual

/-- A node, and all nodes inside it. -/
def Node.nodes : Node → List Node
  | ⟨i, s⟩ => ⟨i, s⟩ :: s.nodes

/-- The nodes inside a node of this shape. -/
def Shape.nodes : Shape → List Node
  | .array items => Node.nodesOption items
  | .choice options => Node.nodesList options
  | .function parameters returns _ =>
    Parameter.nodesList parameters ++ Node.nodesOption returns
  | .object none functions events additional =>
    Callable.nodesList functions ++ Callable.nodesList events ++ Node.nodesOption additional
  | .object (some properties) functions events additional =>
    Property.nodesList properties ++ Callable.nodesList functions ++
      Callable.nodesList events ++ Node.nodesOption additional
  | _ => []

def Node.nodesOption : Option Node → List Node
  | none => []
  | some n => n.nodes

def Node.nodesList : List Node → List Node
  | [] => []
  | n :: ns => n.nodes ++ Node.nodesList ns

def Parameter.nodesList : List Parameter → List Node
  | [] => []
  | ⟨_, n⟩ :: ps => n.nodes ++ Parameter.nodesList ps

def Property.nodesList : List Property → List Node
  | [] => []
  | ⟨_, n⟩ :: ps => n.nodes ++ Property.nodesList ps

/-- The nodes of the parameters and of the result of a function. -/
def Callable.nodes : Callable → List Node
  | ⟨_, _, _, parameters, returns, _, _⟩ =>
    Parameter.nodesList parameters ++ Node.nodesOption returns

def Callable.nodesList : List Callable → List Node
  | [] => []
  | c :: cs => c.nodes ++ Callable.nodesList cs

end

/-- All nodes of a record. -/
def Record.nodes (r : Record) : List Node :=
  Node.nodesList r.types ++ Callable.nodesList r.functions ++ Callable.nodesList r.events ++
    Property.nodesList r.properties

/-- The member functions and events of an object type. -/
def Node.members (n : Node) : List Callable := match n.shape with
  | .object _ functions events _ => functions ++ events
  | _ => []

/-- All functions and events of a record, those that are members of types included. -/
def Record.callables (r : Record) : List Callable :=
  r.functions ++ r.events ++ r.nodes.flatMap Node.members

theorem Node.self_mem_nodes : (n : Node) → n ∈ n.nodes
  | ⟨i, s⟩ => by rw [Node.nodes]; exact List.mem_cons_self

/-! ## The nodes of several -/

theorem Node.nodesList_eq (ns : List Node) : Node.nodesList ns = ns.flatMap Node.nodes := by
  induction ns with
  | nil => rfl
  | cons n ns ih => rw [Node.nodesList, ih, List.flatMap_cons]

theorem Parameter.nodesList_eq (ps : List Parameter) :
    Parameter.nodesList ps = ps.flatMap fun p => p.node.nodes := by
  induction ps with
  | nil => rfl
  | cons p ps ih =>
    obtain ⟨name, n⟩ := p
    rw [Parameter.nodesList, ih, List.flatMap_cons]

theorem Property.nodesList_eq (ps : List Property) :
    Property.nodesList ps = ps.flatMap fun p => p.node.nodes := by
  induction ps with
  | nil => rfl
  | cons p ps ih =>
    obtain ⟨name, n⟩ := p
    rw [Property.nodesList, ih, List.flatMap_cons]

theorem Callable.nodesList_eq (cs : List Callable) :
    Callable.nodesList cs = cs.flatMap Callable.nodes := by
  induction cs with
  | nil => rfl
  | cons c cs ih => rw [Callable.nodesList, ih, List.flatMap_cons]

theorem Node.nodes_subset {n : Node} {ns : List Node} (h : n ∈ ns) :
    n.nodes ⊆ Node.nodesList ns := by
  rw [Node.nodesList_eq]
  exact fun _ hm => List.mem_flatMap.mpr ⟨n, h, hm⟩

theorem Property.nodes_subset {p : Property} {ps : List Property} (h : p ∈ ps) :
    p.node.nodes ⊆ Property.nodesList ps := by
  rw [Property.nodesList_eq]
  exact fun _ hm => List.mem_flatMap.mpr ⟨p, h, hm⟩

theorem Callable.nodes_subset {c : Callable} {cs : List Callable} (h : c ∈ cs) :
    c.nodes ⊆ Callable.nodesList cs := by
  rw [Callable.nodesList_eq]
  exact fun _ hm => List.mem_flatMap.mpr ⟨c, h, hm⟩

/-- An object type that lists no properties is as one that lists none of them. -/
theorem Shape.nodes_object (properties : Option (List Property)) (functions events : List Callable)
    (additional : Option Node) :
    (Shape.object properties functions events additional).nodes =
      Property.nodesList (properties.getD []) ++ Callable.nodesList functions ++
        Callable.nodesList events ++ Node.nodesOption additional := by
  cases properties <;> rfl

/-- The nodes of a record are those of its types, its functions, its events and its
properties. -/
theorem Record.mem_nodes {r : Record} {n : Node} : n ∈ r.nodes ↔
    (∃ t ∈ r.types, n ∈ t.nodes) ∨ (∃ c ∈ r.functions, n ∈ c.nodes) ∨
      (∃ e ∈ r.events, n ∈ e.nodes) ∨ ∃ p ∈ r.properties, n ∈ p.node.nodes := by
  simp only [Record.nodes, Node.nodesList_eq, Callable.nodesList_eq, Property.nodesList_eq,
    List.mem_append, List.mem_flatMap, or_assoc]

end Typings.Schema
