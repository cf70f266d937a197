import Typings.Proofs.WellTyped

/-!
# What a key tells of the nodes in it

A key holds nodes in canonical form, where a constant is no more than the value it stands for:
`1`, `1.0` and `true` are the same there. That is all that is lost of well typed nodes. Two of
them with one canonical form are equal if they have the same constants, in the same places.

A node is compared with another through the row of all nodes in it. Being `Alike` is a condition
on two such rows, namely that every node is typed and that the constants agree; it goes down to
the parts of a node, since equal canonical forms have equally long rows, so that the rows split
where the parts do.
-/

namespace Typings.Schema

/-! ## Constants -/

/-- The value of a constant type. -/
def Shape.constant? : Shape → Option Scalar
  | .constant value => some value
  | _ => none

/-- The constants among some nodes, in order. -/
def constants (ns : List Node) : List Scalar := ns.filterMap fun n => n.shape.constant?

theorem constants_append (ns ms : List Node) :
    constants (ns ++ ms) = constants ns ++ constants ms := List.filterMap_append ..

theorem Shape.constant?_canonical (s : Shape) :
    s.canonical.constant? = s.constant?.map Scalar.canonical := by
  rcases s with _ | _ | _ | _ | _ | _ | _ | _ | ⟨_ | _, _, _, _⟩ | _ | _ <;> rfl

@[simp] theorem Node.canonical_shape (n : Node) : n.canonical.shape = n.shape.canonical := by
  cases n
  rw [Node.canonical]

theorem constants_canonical (ns : List Node) :
    constants (ns.map Node.canonical) = (constants ns).map Scalar.canonical := by
  unfold constants
  rw [List.filterMap_map, List.map_filterMap]
  simp only [Function.comp_def, Node.canonical_shape, Shape.constant?_canonical]

/-! ## Canonical nodes -/

mutual

/-- **The nodes of a canonical form are the canonical forms of the nodes.** -/
theorem Node.nodes_canonical : (n : Node) → n.canonical.nodes = n.nodes.map Node.canonical
  | ⟨i, s⟩ => by
    rw [Node.canonical, Node.nodes, Node.nodes, List.map_cons, Node.canonical,
      Shape.nodes_canonical s]

theorem Shape.nodes_canonical : (s : Shape) → s.canonical.nodes = s.nodes.map Node.canonical
  -- shapes without nodes inside have no row
  | .reference _ => by rw [Shape.canonical]; rfl
  | .number _ => by rw [Shape.canonical]; rfl
  | .string _ => by rw [Shape.canonical]; rfl
  | .array items => by
    rw [Shape.canonical, Shape.nodes, Shape.nodes, Node.nodesOption_canonical items]
  | .boolean => by rw [Shape.canonical]; rfl
  | .choice options => by
    rw [Shape.canonical, Shape.nodes, Shape.nodes, Node.nodesList_canonical options]
  | .function parameters returns _ => by
    rw [Shape.canonical, Shape.nodes, Shape.nodes, List.map_append,
      Parameter.nodesList_canonical parameters, Node.nodesOption_canonical returns]
  | .any => by rw [Shape.canonical]; rfl
  | .object none functions events additional => by
    rw [Shape.canonical, Shape.nodes, Shape.nodes, List.map_append, List.map_append,
      Callable.nodesList_canonical functions, Callable.nodesList_canonical events,
      Node.nodesOption_canonical additional]
  | .object (some properties) functions events additional => by
    rw [Shape.canonical, Shape.nodes, Shape.nodes, List.map_append, List.map_append,
      List.map_append, Property.nodesList_canonical properties,
      Callable.nodesList_canonical functions, Callable.nodesList_canonical events,
      Node.nodesOption_canonical additional]
  | .constant _ => by rw [Shape.canonical]; rfl
  | .unknown _ => by rw [Shape.canonical]; rfl

theorem Node.nodesOption_canonical : (o : Option Node) →
    Node.nodesOption (Node.canonicalOption o) = (Node.nodesOption o).map Node.canonical
  | none => by rw [Node.canonicalOption]; rfl
  | some n => by
    rw [Node.canonicalOption, Node.nodesOption, Node.nodesOption, Node.nodes_canonical n]

theorem Node.nodesList_canonical : (ns : List Node) →
    Node.nodesList (Node.canonicalList ns) = (Node.nodesList ns).map Node.canonical
  | [] => by rw [Node.canonicalList]; rfl
  | n :: ns => by
    rw [Node.canonicalList, Node.nodesList, Node.nodesList, List.map_append,
      Node.nodes_canonical n, Node.nodesList_canonical ns]

theorem Parameter.nodesList_canonical : (ps : List Parameter) →
    Parameter.nodesList (Parameter.canonicalList ps) = (Parameter.nodesList ps).map Node.canonical
  | [] => by rw [Parameter.canonicalList]; rfl
  | ⟨_, n⟩ :: ps => by
    rw [Parameter.canonicalList, Parameter.canonical, Parameter.nodesList, Parameter.nodesList,
      List.map_append, Node.nodes_canonical n, Parameter.nodesList_canonical ps]

theorem Property.nodesList_canonical : (ps : List Property) →
    Property.nodesList (Property.canonicalList ps) = (Property.nodesList ps).map Node.canonical
  | [] => by rw [Property.canonicalList]; rfl
  | ⟨_, n⟩ :: ps => by
    rw [Property.canonicalList, Property.canonical, Property.nodesList, Property.nodesList,
      List.map_append, Node.nodes_canonical n, Property.nodesList_canonical ps]

theorem Callable.nodes_canonical : (c : Callable) → c.canonical.nodes = c.nodes.map Node.canonical
  | ⟨_, _, _, parameters, returns, _, _⟩ => by
    rw [Callable.canonical, Callable.nodes, Callable.nodes, List.map_append,
      Parameter.nodesList_canonical parameters, Node.nodesOption_canonical returns]

theorem Callable.nodesList_canonical : (cs : List Callable) →
    Callable.nodesList (Callable.canonicalList cs) = (Callable.nodesList cs).map Node.canonical
  | [] => by rw [Callable.canonicalList]; rfl
  | c :: cs => by
    rw [Callable.canonicalList, Callable.nodesList, Callable.nodesList, List.map_append,
      Callable.nodes_canonical c, Callable.nodesList_canonical cs]

end

/-! ## Equal canonical forms -/

/-- Well typed nodes with the same constants in the same order. -/
structure Alike (ns ms : List Node) : Prop where
  left : Typed ns
  right : Typed ms
  constants : constants ns = constants ms

/-- Nodes in front of others are alike if as many of them are constants. -/
theorem Alike.append {ns ns' ms ms' : List Node} (h : Alike (ns ++ ns') (ms ++ ms'))
    (hcanonical : ns.map Node.canonical = ms.map Node.canonical) :
    Alike ns ms ∧ Alike ns' ms' := by
  -- a canonical form has as many constants as the node
  have hlength : (Schema.constants ns).length = (Schema.constants ms).length := by
    have := congrArg (fun ns => (Schema.constants ns).length) hcanonical
    simpa only [constants_canonical, List.length_map] using this
  have hconstants := h.constants
  rw [constants_append, constants_append] at hconstants
  obtain ⟨hfirst, hrest⟩ := List.append_inj hconstants hlength
  exact ⟨⟨h.left.append.1, h.right.append.1, hfirst⟩, ⟨h.left.append.2, h.right.append.2, hrest⟩⟩

theorem Info.eq_of_canonical {i j : Info} (hi : i.isTyped = true) (hj : j.isTyped = true)
    (h : i.canonical = j.canonical) : i = j := by
  simp only [isTyped, Bool.and_eq_true] at hi hj
  obtain ⟨⟨⟨hid, hdescription⟩, hdeprecated⟩, hextends⟩ := hi
  obtain ⟨⟨⟨hid', hdescription'⟩, hdeprecated'⟩, hextends'⟩ := hj
  cases i
  cases j
  simp only [canonical, Info.mk.injEq] at h ⊢
  exact ⟨Json.eq_of_canonical hid hid' h.1, Json.eq_of_canonical hdescription hdescription' h.2.1,
    h.2.2.1, Json.eq_of_canonical hdeprecated hdeprecated' h.2.2.2.1, h.2.2.2.2.1,
    Json.eq_of_canonical hextends hextends' h.2.2.2.2.2⟩

/-- What it takes for two shapes to be told apart by their canonical forms. -/
structure Shape.Alike (s t : Shape) : Prop where
  left : s.isTyped = true
  right : t.isTyped = true
  constant : s.constant? = t.constant?
  inside : Schema.Alike s.nodes t.nodes

/-- Alike nodes say the same about themselves and have alike shapes. -/
theorem Alike.node {i j : Info} {s t : Shape} (h : Alike (Node.nodes ⟨i, s⟩) (Node.nodes ⟨j, t⟩))
    (hcanonical : Node.canonical ⟨i, s⟩ = Node.canonical ⟨j, t⟩) : i = j ∧ s.Alike t := by
  have hcons : Alike ([⟨i, s⟩] ++ s.nodes) ([⟨j, t⟩] ++ t.nodes) := by
    rwa [Node.nodes, Node.nodes] at h
  obtain ⟨hself, hinside⟩ := hcons.append (by simp [hcanonical])
  obtain ⟨hi, hs⟩ : i.isTyped = true ∧ s.isTyped = true :=
    Bool.and_eq_true_iff.mp (hself.left _ List.mem_cons_self)
  obtain ⟨hj, ht⟩ : j.isTyped = true ∧ t.isTyped = true :=
    Bool.and_eq_true_iff.mp (hself.right _ List.mem_cons_self)
  -- the constant of a node is the first of its row, if it is one
  have hconstant : s.constant? = t.constant? := by
    have hconstants := hself.constants
    unfold Schema.constants at hconstants
    cases hv : s.constant? <;> cases hw : t.constant? <;> simp_all
  rw [Node.canonical, Node.canonical, Node.mk.injEq] at hcanonical
  exact ⟨Info.eq_of_canonical hi hj hcanonical.1,
    ⟨hs, ht, hconstant, hinside⟩⟩

mutual

/-- **Well typed nodes with one canonical form and the same constants are equal.** -/
theorem Node.eq_of_canonical : (n m : Node) → Alike n.nodes m.nodes →
    n.canonical = m.canonical → n = m
  | ⟨i, s⟩, ⟨j, t⟩, h, hc => by
    obtain ⟨rfl, hshape⟩ := h.node hc
    rw [Node.canonical, Node.canonical, Node.mk.injEq] at hc
    rw [Shape.eq_of_canonical s t hshape hc.2]

theorem Shape.eq_of_canonical : (s t : Shape) → s.Alike t → s.canonical = t.canonical → s = t
  | .reference a, t, h, hc => by
    -- a shape of another kind has a canonical form of that kind
    rcases t with b | _ | _ | _ | _ | _ | _ | _ | ⟨_ | _, _, _, _⟩ | _ | _ <;>
      simp only [Shape.canonical, reduceCtorEq, Shape.reference.injEq] at hc
    rw [Json.eq_of_canonical (Json.isWord_of_isText h.left) (Json.isWord_of_isText h.right) hc]
  | .number a, t, _, hc => by
    rcases t with _ | b | _ | _ | _ | _ | _ | _ | ⟨_ | _, _, _, _⟩ | _ | _ <;>
      simp only [Shape.canonical, reduceCtorEq, Shape.number.injEq] at hc
    rw [hc]
  | .string a, t, _, hc => by
    rcases t with _ | _ | b | _ | _ | _ | _ | _ | ⟨_ | _, _, _, _⟩ | _ | _ <;>
      simp only [Shape.canonical, reduceCtorEq, Shape.string.injEq] at hc
    rw [hc]
  | .array a, t, h, hc => by
    rcases t with _ | _ | _ | b | _ | _ | _ | _ | ⟨_ | _, _, _, _⟩ | _ | _ <;>
      simp only [Shape.canonical, reduceCtorEq, Shape.array.injEq] at hc
    rw [Node.eq_of_canonicalOption a b h.inside hc]
  | .boolean, t, _, hc => by
    rcases t with _ | _ | _ | _ | _ | _ | _ | _ | ⟨_ | _, _, _, _⟩ | _ | _ <;>
      simp only [Shape.canonical, reduceCtorEq] at hc
    rfl
  | .choice a, t, h, hc => by
    rcases t with _ | _ | _ | _ | _ | b | _ | _ | ⟨_ | _, _, _, _⟩ | _ | _ <;>
      simp only [Shape.canonical, reduceCtorEq, Shape.choice.injEq] at hc
    rw [Node.eq_of_canonicalList a b h.inside hc]
  | .function ps r a, t, h, hc => by
    rcases t with _ | _ | _ | _ | _ | _ | ⟨qs, u, b⟩ | _ | ⟨_ | _, _, _, _⟩ | _ | _ <;>
      simp only [Shape.canonical, reduceCtorEq, Shape.function.injEq] at hc
    obtain ⟨hasync, hnames⟩ := Bool.and_eq_true_iff.mp h.left
    obtain ⟨hasync', hnames'⟩ := Bool.and_eq_true_iff.mp h.right
    obtain ⟨hps, hr⟩ := h.inside.append (by
      rw [← Parameter.nodesList_canonical, ← Parameter.nodesList_canonical, hc.1])
    rw [Parameter.eq_of_canonicalList ps qs hnames hnames' hps hc.1,
      Node.eq_of_canonicalOption r u hr hc.2.1, Json.eq_of_canonical hasync hasync' hc.2.2]
  | .any, t, _, hc => by
    rcases t with _ | _ | _ | _ | _ | _ | _ | _ | ⟨_ | _, _, _, _⟩ | _ | _ <;>
      simp only [Shape.canonical, reduceCtorEq] at hc
    rfl
  | .object none f e a, t, h, hc => by
    rcases t with _ | _ | _ | _ | _ | _ | _ | _ | ⟨_ | _, g, d, b⟩ | _ | _ <;>
      simp only [Shape.canonical, reduceCtorEq, Shape.object.injEq, true_and, false_and] at hc
    obtain ⟨hf, he⟩ := Bool.and_eq_true_iff.mp h.left
    obtain ⟨hg, hd⟩ := Bool.and_eq_true_iff.mp h.right
    obtain ⟨hmembers, hadditional⟩ := h.inside.append (by
      simp only [List.map_append, ← Callable.nodesList_canonical, hc.1, hc.2.1])
    obtain ⟨hfunctions, hevents⟩ := hmembers.append (by
      rw [← Callable.nodesList_canonical, ← Callable.nodesList_canonical, hc.1])
    rw [Callable.eq_of_canonicalList f g hf hg hfunctions hc.1,
      Callable.eq_of_canonicalList e d he hd hevents hc.2.1,
      Node.eq_of_canonicalOption a b hadditional hc.2.2]
  | .object (some p) f e a, t, h, hc => by
    rcases t with _ | _ | _ | _ | _ | _ | _ | _ | ⟨_ | q, g, d, b⟩ | _ | _ <;>
      simp only [Shape.canonical, reduceCtorEq, Shape.object.injEq, Option.some.injEq,
        false_and] at hc
    obtain ⟨hf, he⟩ := Bool.and_eq_true_iff.mp h.left
    obtain ⟨hg, hd⟩ := Bool.and_eq_true_iff.mp h.right
    obtain ⟨hmembers, hadditional⟩ := h.inside.append (by
      simp only [List.map_append, ← Callable.nodesList_canonical, ← Property.nodesList_canonical,
        hc.1, hc.2.1, hc.2.2.1])
    obtain ⟨hmembers, hevents⟩ := hmembers.append (by
      simp only [List.map_append, ← Callable.nodesList_canonical, ← Property.nodesList_canonical,
        hc.1, hc.2.1])
    obtain ⟨hproperties, hfunctions⟩ := hmembers.append (by
      rw [← Property.nodesList_canonical, ← Property.nodesList_canonical, hc.1])
    rw [Property.eq_of_canonicalList p q hproperties hc.1,
      Callable.eq_of_canonicalList f g hf hg hfunctions hc.2.1,
      Callable.eq_of_canonicalList e d he hd hevents hc.2.2.1,
      Node.eq_of_canonicalOption a b hadditional hc.2.2.2]
  | .constant v, t, h, hc => by
    rcases t with _ | _ | _ | _ | _ | _ | _ | _ | ⟨_ | _, _, _, _⟩ | w | _ <;>
      simp only [Shape.canonical, reduceCtorEq] at hc
    -- here the canonical forms say too little
    rw [Option.some.inj h.constant]
  | .unknown a, t, h, hc => by
    rcases t with _ | _ | _ | _ | _ | _ | _ | _ | ⟨_ | _, _, _, _⟩ | _ | b <;>
      simp only [Shape.canonical, reduceCtorEq, Shape.unknown.injEq] at hc
    rw [Json.eq_of_canonical h.left h.right hc]

theorem Node.eq_of_canonicalOption : (o u : Option Node) →
    Alike (Node.nodesOption o) (Node.nodesOption u) →
    Node.canonicalOption o = Node.canonicalOption u → o = u
  | none, u, _, hc => by
    cases u with
    | none => rfl
    | some m => exact absurd hc (by simp [Node.canonicalOption])
  | some n, u, h, hc => by
    cases u with
    | none => exact absurd hc (by simp [Node.canonicalOption])
    | some m =>
      rw [Node.canonicalOption, Node.canonicalOption, Option.some.injEq] at hc
      rw [Node.eq_of_canonical n m h hc]

theorem Node.eq_of_canonicalList : (ns ms : List Node) →
    Alike (Node.nodesList ns) (Node.nodesList ms) →
    Node.canonicalList ns = Node.canonicalList ms → ns = ms
  | [], ms, _, hc => by
    cases ms with
    | nil => rfl
    | cons m ms => exact absurd hc (by simp [Node.canonicalList])
  | n :: ns, ms, h, hc => by
    cases ms with
    | nil => exact absurd hc (by simp [Node.canonicalList])
    | cons m ms =>
      rw [Node.canonicalList, Node.canonicalList, List.cons.injEq] at hc
      rw [Node.nodesList, Node.nodesList] at h
      obtain ⟨hn, hns⟩ := h.append (by
        rw [← Node.nodes_canonical, ← Node.nodes_canonical, hc.1])
      rw [Node.eq_of_canonical n m hn hc.1, Node.eq_of_canonicalList ns ms hns hc.2]

theorem Parameter.eq_of_canonicalList : (ps qs : List Parameter) →
    ps.all Parameter.isTyped = true → qs.all Parameter.isTyped = true →
    Alike (Parameter.nodesList ps) (Parameter.nodesList qs) →
    Parameter.canonicalList ps = Parameter.canonicalList qs → ps = qs
  | [], qs, _, _, _, hc => by
    cases qs with
    | nil => rfl
    | cons q qs => exact absurd hc (by simp [Parameter.canonicalList])
  | ⟨name, n⟩ :: ps, qs, hps, hqs, h, hc => by
    cases qs with
    | nil => exact absurd hc (by simp [Parameter.canonicalList])
    | cons q qs =>
      obtain ⟨name', m⟩ := q
      obtain ⟨hname, hpsrest⟩ := Bool.and_eq_true_iff.mp hps
      obtain ⟨hname', hqsrest⟩ := Bool.and_eq_true_iff.mp hqs
      simp only [Parameter.canonicalList, Parameter.canonical, List.cons.injEq,
        Parameter.mk.injEq] at hc
      obtain ⟨⟨hcname, hcnode⟩, hcrest⟩ := hc
      rw [Parameter.nodesList, Parameter.nodesList] at h
      -- equal canonical nodes have equally many nodes, so the two rows split at one place
      obtain ⟨hn, hrest⟩ := h.append (by
        rw [← Node.nodes_canonical, ← Node.nodes_canonical, hcnode])
      obtain rfl : name = name' := Json.eq_of_canonical hname hname' hcname
      rw [Node.eq_of_canonical n m hn hcnode,
        Parameter.eq_of_canonicalList ps qs hpsrest hqsrest hrest hcrest]

theorem Property.eq_of_canonicalList : (ps qs : List Property) →
    Alike (Property.nodesList ps) (Property.nodesList qs) →
    Property.canonicalList ps = Property.canonicalList qs → ps = qs
  | [], qs, _, hc => by
    cases qs with
    | nil => rfl
    | cons q qs => exact absurd hc (by simp [Property.canonicalList])
  | ⟨name, n⟩ :: ps, qs, h, hc => by
    cases qs with
    | nil => exact absurd hc (by simp [Property.canonicalList])
    | cons q qs =>
      obtain ⟨name', m⟩ := q
      simp only [Property.canonicalList, Property.canonical, List.cons.injEq,
        Property.mk.injEq] at hc
      -- the name of a property is a key of an object, which canonical forms keep as it is
      obtain ⟨⟨rfl, hcnode⟩, hcrest⟩ := hc
      rw [Property.nodesList, Property.nodesList] at h
      obtain ⟨hn, hrest⟩ := h.append (by
        rw [← Node.nodes_canonical, ← Node.nodes_canonical, hcnode])
      rw [Node.eq_of_canonical n m hn hcnode, Property.eq_of_canonicalList ps qs hrest hcrest]

theorem Callable.eq_of_canonical : (c d : Callable) → c.isTyped = true → d.isTyped = true →
    Alike c.nodes d.nodes → c.canonical = d.canonical → c = d
  | ⟨name, async, description, ps, r, deprecated, _⟩,
      ⟨name', async', description', qs, u, deprecated', _⟩, hcs, hds, h, hc => by
    simp only [Callable.isTyped, Bool.and_eq_true] at hcs hds
    obtain ⟨⟨⟨⟨hname, hasync⟩, hdescription⟩, hdeprecated⟩, hps⟩ := hcs
    obtain ⟨⟨⟨⟨hname', hasync'⟩, hdescription'⟩, hdeprecated'⟩, hqs⟩ := hds
    rw [Callable.nodes, Callable.nodes] at h
    rw [Callable.canonical, Callable.canonical, Callable.mk.injEq] at hc
    obtain ⟨hcname, hcasync, hcdescription, hcps, hcr, hcdeprecated, rfl⟩ := hc
    -- parameters and result are told apart in the row of nodes by their number
    obtain ⟨hparameters, hreturns⟩ := h.append (by
      rw [← Parameter.nodesList_canonical, ← Parameter.nodesList_canonical, hcps])
    rw [Json.eq_of_canonical hname hname' hcname, Json.eq_of_canonical hasync hasync' hcasync,
      Json.eq_of_canonical hdescription hdescription' hcdescription,
      Parameter.eq_of_canonicalList ps qs hps hqs hparameters hcps,
      Node.eq_of_canonicalOption r u hreturns hcr,
      Json.eq_of_canonical hdeprecated hdeprecated' hcdeprecated]

theorem Callable.eq_of_canonicalList : (cs ds : List Callable) →
    cs.all Callable.isTyped = true → ds.all Callable.isTyped = true →
    Alike (Callable.nodesList cs) (Callable.nodesList ds) →
    Callable.canonicalList cs = Callable.canonicalList ds → cs = ds
  | [], ds, _, _, _, hc => by
    cases ds with
    | nil => rfl
    | cons d ds => exact absurd hc (by simp [Callable.canonicalList])
  | c :: cs, ds, hcs, hds, h, hc => by
    cases ds with
    | nil => exact absurd hc (by simp [Callable.canonicalList])
    | cons d ds =>
      obtain ⟨hself, hcsrest⟩ := Bool.and_eq_true_iff.mp hcs
      obtain ⟨hself', hdsrest⟩ := Bool.and_eq_true_iff.mp hds
      rw [Callable.canonicalList, Callable.canonicalList, List.cons.injEq] at hc
      rw [Callable.nodesList, Callable.nodesList] at h
      -- the rows of nodes split at one place, as they do for parameters
      obtain ⟨hfirst, hrest⟩ := h.append (by
        rw [← Callable.nodes_canonical, ← Callable.nodes_canonical, hc.1])
      rw [Callable.eq_of_canonical c d hself hself' hfirst hc.1,
        Callable.eq_of_canonicalList cs ds hcsrest hdsrest hrest hc.2]

end

end Typings.Schema
