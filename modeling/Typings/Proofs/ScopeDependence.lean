import Typings.Declaration.File
import Typings.Proofs.Subnodes

/-!
# What a scope is read for

A scope says in which namespace a type is written and what the table holds. Of the table
nothing is read but under which name a reference is known: two scopes inside one namespace
that agree on the references of a record write the same lines for it and raise the same
warnings. So the block of a namespace depends on the other namespaces through its references
only.

`AgreeOn` lists the references in a row of nodes and asks that both scopes treat each alike. It
goes down to the parts of a node, so the induction is that of `compile`; the lines of declarations
follow part by part.
-/

namespace Typings

open Schema (Node Shape Parameter Property Callable Record)

/-- Two scopes inside the same namespace that know every reference among these nodes under
the same name. -/
structure Scope.AgreeOn (scope scope' : Scope) (ns : List Node) : Prop where
  current : scope.current = scope'.current
  qualify : ∀ n ∈ ns, ∀ target, n.shape = .reference target →
    scope.qualify target = scope'.qualify target

section Scopes

variable {scope scope' : Scope}

theorem Scope.AgreeOn.mono {ns ms : List Node} (h : scope.AgreeOn scope' ns) (hsub : ms ⊆ ns) :
    scope.AgreeOn scope' ms :=
  ⟨h.current, fun n hn => h.qualify n (hsub hn)⟩

theorem Scope.AgreeOn.append {ns ms : List Node} (h : scope.AgreeOn scope' (ns ++ ms)) :
    scope.AgreeOn scope' ns ∧ scope.AgreeOn scope' ms :=
  ⟨h.mono (List.subset_append_left ns ms), h.mono (List.subset_append_right ns ms)⟩

/-- What agrees on a node and on what is inside it agrees on what is inside. -/
theorem Scope.AgreeOn.inside {i : Schema.Info} {s : Shape}
    (h : scope.AgreeOn scope' (Node.nodes ⟨i, s⟩)) : scope.AgreeOn scope' s.nodes := by
  rw [Node.nodes] at h
  exact h.mono (List.subset_cons_self _ _)

/-! ## Types -/

mutual

/-- **A node compiles to the same in both scopes.** -/
theorem compile_congr : (n : Node) → scope.AgreeOn scope' n.nodes →
    compile scope n = compile scope' n
  | ⟨i, .reference target⟩, h => by
    rw [compile, compile, h.qualify _ (Node.self_mem_nodes _) target rfl]
  | ⟨_, .number _⟩, _ => by rw [compile, compile]
  | ⟨_, .string _⟩, _ => by rw [compile, compile]
  -- the warning tells of the namespace, so this is more than a constant
  | ⟨_, .array none⟩, h => by rw [compile, compile, h.current]
  | ⟨_, .array (some items)⟩, h => by
    rw [compile, compile, compile_congr items h.inside]
  | ⟨_, .boolean⟩, _ => by rw [compile, compile]
  | ⟨_, .choice options⟩, h => by
    rw [compile, compile, compileOptions_congr options h.inside]
  | ⟨_, .function parameters returns _⟩, h => by
    obtain ⟨hparameters, hreturns⟩ := h.inside.append
    rw [compile, compile, compileInputs_congr parameters hparameters,
      compileOutput_congr returns hreturns, h.current]
  | ⟨_, .any⟩, _ => by rw [compile, compile]
  | ⟨_, .object none _ _ none⟩, _ => by rw [compile, compile]
  | ⟨_, .object none _ _ (some additional)⟩, h => by
    rw [compile, compile, compile_congr additional h.inside.append.2]
  | ⟨_, .object (some properties) _ _ additional⟩, h => by
    obtain ⟨hmembers, hadditional⟩ := h.inside.append
    rw [compile, compile, compileMembers_congr properties hmembers.append.1.append.1,
      compileIndex_congr additional hadditional]
  | ⟨_, .constant _⟩, _ => by rw [compile, compile]
  | ⟨_, .unknown _⟩, _ => by rw [compile, compile]

theorem compileOptions_congr : (ns : List Node) → scope.AgreeOn scope' (Node.nodesList ns) →
    compileOptions scope ns = compileOptions scope' ns
  | [], _ => by rw [compileOptions, compileOptions]
  | n :: ns, h => by
    rw [Node.nodesList] at h
    rw [compileOptions, compileOptions, compile_congr n h.append.1,
      compileOptions_congr ns h.append.2]

theorem compileMembers_congr : (ps : List Property) →
    scope.AgreeOn scope' (Property.nodesList ps) →
    compileMembers scope ps = compileMembers scope' ps
  | [], _ => by rw [compileMembers, compileMembers]
  | ⟨_, n⟩ :: ps, h => by
    rw [Property.nodesList] at h
    rw [compileMembers, compileMembers, compile_congr n h.append.1,
      compileMembers_congr ps h.append.2]

theorem compileIndex_congr : (o : Option Node) → scope.AgreeOn scope' (Node.nodesOption o) →
    compileIndex scope o = compileIndex scope' o
  | none, _ => by rw [compileIndex, compileIndex]
  | some n, h => by rw [compileIndex, compileIndex, compile_congr n h]

theorem compileInputs_congr : (ps : List Parameter) →
    scope.AgreeOn scope' (Parameter.nodesList ps) →
    compileInputs scope ps = compileInputs scope' ps
  | [], _ => by rw [compileInputs, compileInputs]
  | ⟨_, n⟩ :: ps, h => by
    rw [Parameter.nodesList] at h
    rw [compileInputs, compileInputs, compile_congr n h.append.1,
      compileInputs_congr ps h.append.2]

theorem compileOutput_congr : (o : Option Node) → scope.AgreeOn scope' (Node.nodesOption o) →
    compileOutput scope o = compileOutput scope' o
  | none, _ => by rw [compileOutput, compileOutput]
  | some n, h => by rw [compileOutput, compileOutput, compile_congr n h]

end

theorem expression_congr {n : Node} (h : scope.AgreeOn scope' n.nodes) :
    n.expression scope = n.expression scope' :=
  congrArg Compiled.type (compile_congr n h)

theorem signature_congr {c : Callable} (h : scope.AgreeOn scope' c.nodes) :
    c.signature scope = c.signature scope' := by
  obtain ⟨name, async, description, parameters, returns, deprecated, unsupported⟩ := c
  rw [Callable.nodes] at h
  unfold Callable.signature
  rw [compileInputs_congr parameters h.append.1, compileOutput_congr returns h.append.2]

end Scopes

/-! ## Declarations -/

namespace Declaration

theorem collect_congr {α : Type} {f g : α → Outcome (List String)} {as : List α}
    (h : ∀ a ∈ as, f a = g a) : collect f as = collect g as := by
  induction as with
  | nil => rfl
  | cons a as ih =>
    obtain ⟨ha, has⟩ := List.forall_mem_cons.mp h
    rw [collect, collect, ha, ih has]

section Scopes

variable {scope scope' : Scope}

theorem propertyLines_congr {p : Property} (h : scope.AgreeOn scope' p.node.nodes) :
    propertyLines scope p = propertyLines scope' p := by
  unfold propertyLines
  rw [expression_congr h]

theorem constantLines_congr {p : Property} (h : scope.AgreeOn scope' p.node.nodes) :
    constantLines scope p = constantLines scope' p := by
  unfold constantLines
  rw [expression_congr h]

theorem indexLines_congr {o : Option Node} (h : scope.AgreeOn scope' (Node.nodesOption o)) :
    indexLines scope o = indexLines scope' o := by
  cases o with
  | none => rfl
  | some n => rw [indexLines, indexLines, expression_congr h]

theorem functionLines_congr {style : Signature.Style} {c : Callable}
    (h : scope.AgreeOn scope' c.nodes) :
    (c.signature scope).lines style scope.current =
      (c.signature scope').lines style scope'.current := by
  rw [signature_congr h, h.current]

theorem eventLines_congr {indent : String} {target : Json → Except Fault String} {e : Callable}
    (h : scope.AgreeOn scope' e.nodes) :
    eventLines scope indent target e = eventLines scope' indent target e := by
  unfold eventLines Callable.listenerType
  rw [signature_congr h, h.current]

/-- Of several functions or events, the supported ones are written the same. -/
theorem collect_supported_congr {f g : Callable → Outcome (List String)} {cs : List Callable}
    (hfg : ∀ c, scope.AgreeOn scope' c.nodes → f c = g c)
    (h : scope.AgreeOn scope' (Callable.nodesList cs)) :
    collect f (supported cs) = collect g (supported cs) :=
  collect_congr fun c hc => hfg c (h.mono (Callable.nodes_subset (List.mem_filter.mp hc).1))

/-- So are the supported properties. -/
theorem collect_properties_congr {f g : Property → Outcome (List String)} {ps : List Property}
    (hfg : ∀ p, scope.AgreeOn scope' p.node.nodes → f p = g p)
    (h : scope.AgreeOn scope' (Property.nodesList ps)) :
    collect f (supportedProperties ps) = collect g (supportedProperties ps) :=
  collect_congr fun p hp => hfg p (h.mono (Property.nodes_subset (List.mem_filter.mp hp).1))

theorem memberLines_congr {n : Node} (h : scope.AgreeOn scope' n.nodes) :
    memberLines scope n = memberLines scope' n := by
  obtain ⟨i, s⟩ := n
  unfold memberLines
  split
  case h_1 properties functions events additional hs =>
    obtain rfl : s = _ := hs
    have hinside := h.inside
    rw [Shape.nodes_object] at hinside
    -- the row of an object type: properties, functions, events, and the index
    obtain ⟨hmembers, hadditional⟩ := hinside.append
    obtain ⟨hmembers, hevents⟩ := hmembers.append
    obtain ⟨hproperties, hfunctions⟩ := hmembers.append
    rw [collect_properties_congr (fun _ => propertyLines_congr) hproperties,
      indexLines_congr hadditional,
      collect_supported_congr (fun _ => functionLines_congr) hfunctions,
      collect_supported_congr (fun _ => eventLines_congr) hevents]
  case h_2 => rfl

theorem interfaceLines_congr {name : String} {n : Node} (h : scope.AgreeOn scope' n.nodes) :
    interfaceLines scope name n = interfaceLines scope' name n := by
  unfold interfaceLines
  rw [memberLines_congr h]

/-- **A type is written the same in both scopes**, with a name or without. -/
theorem typeLines_congr {r : Record} {n : Node} (h : scope.AgreeOn scope' n.nodes) :
    typeLines scope r n = typeLines scope' r n := by
  unfold typeLines extensionLines namedTypeLines
  simp only [expression_congr h, interfaceLines_congr h]

end Scopes

/-- **The block of a namespace depends on the other namespaces through its references only.** -/
theorem blockLines_congr {t t' : Table} {root : String} {r : Record}
    (h : Scope.AgreeOn ⟨r.name, t⟩ ⟨r.name, t'⟩ r.nodes) :
    blockLines t root r = blockLines t' root r := by
  -- the row of a record: types, functions, events, properties
  obtain ⟨hrest, hproperties⟩ := h.append
  obtain ⟨hrest, hevents⟩ := hrest.append
  obtain ⟨htypes, hfunctions⟩ := hrest.append
  have htypesLines : typesLines ⟨r.name, t⟩ r = typesLines ⟨r.name, t'⟩ r :=
    collect_congr fun n hn =>
      typeLines_congr (htypes.mono (Node.nodes_subset (List.mem_filter.mp hn).1))
  have hfunctionsLines : functionsLines ⟨r.name, t⟩ r = functionsLines ⟨r.name, t'⟩ r :=
    collect_supported_congr (fun _ => functionLines_congr) hfunctions
  have heventsLines : eventsLines ⟨r.name, t⟩ r = eventsLines ⟨r.name, t'⟩ r :=
    collect_supported_congr (fun _ => eventLines_congr) hevents
  have hpropertiesLines : propertiesLines ⟨r.name, t⟩ r = propertiesLines ⟨r.name, t'⟩ r :=
    collect_properties_congr (fun _ => constantLines_congr) hproperties
  unfold blockLines
  simp only [htypesLines, hfunctionsLines, heventsLines, hpropertiesLines]

/-! ## The block of a namespace that is asked for -/

theorem namespaceLines_of_some {t : Table} {name : String} {r : Record}
    (h : t.get? name = some r) (root : String) :
    namespaceLines t root name = blockLines t root r := by
  simp only [namespaceLines, Table.get, h, Outcome.lift_eq, Outcome.ok_bind, List.nil_append]

theorem namespaceLines_of_none {t : Table} {name : String} (h : t.get? name = none)
    (root : String) : namespaceLines t root name = ⟨[], .error (.unknownNamespace name)⟩ := by
  simp only [namespaceLines, Table.get, h, Outcome.lift_eq, Outcome.error_bind]

end Declaration

end Typings
