import Typings.Proofs.AllowedValues

/-!
# Well typed schemas

A schema may write anything into the fields that are not looked at before they are used. In a
well typed one these fields hold texts, or say yes or no, or are left out, and a reference is a
text; only constants are numbers, and any numbers. Then the members of a record have keys, so
merging can tell them apart.

What is asked for is a condition on every node and every function by itself, so a well typed
record is one in which all nodes and all functions, at whatever depth, meet it.
-/

namespace Typings

namespace Json

/-- Is the value null, a truth value or a text? -/
def isWord : Json → Bool
  | .null => true
  | .bool _ => true
  | .str _ => true
  | _ => false

/-- Is the value a text? -/
def isText : Json → Bool
  | .str _ => true
  | _ => false

theorem cases_of_isWord {v : Json} (h : v.isWord = true) :
    v = .null ∨ (∃ b, v = .bool b) ∨ ∃ s, v = .str s := by
  rcases v with (_ | _ | _ | _ | _) | _ | _ <;> simp_all [isWord]

theorem exists_str_of_isText {v : Json} (h : v.isText = true) : ∃ s, v = .str s := by
  rcases v with (_ | _ | _ | _ | _) | _ | _ <;> simp_all [isText]

theorem isWord_of_isText {v : Json} (h : v.isText = true) : v.isWord = true := by
  obtain ⟨s, rfl⟩ := exists_str_of_isText h
  rfl

theorem isComposite_of_isWord {v : Json} (h : v.isWord = true) : v.isComposite = false := by
  rcases cases_of_isWord h with rfl | ⟨b, rfl⟩ | ⟨s, rfl⟩ <;> rfl

/-- **Words are told apart by their canonical forms.** -/
theorem eq_of_canonical {a b : Json} (ha : a.isWord = true) (hb : b.isWord = true)
    (h : a.canonical = b.canonical) : a = b := by
  rcases cases_of_isWord ha with rfl | ⟨_ | _, rfl⟩ | ⟨s, rfl⟩ <;>
    rcases cases_of_isWord hb with rfl | ⟨_ | _, rfl⟩ | ⟨t, rfl⟩ <;>
    simp_all [canonical, Scalar.canonical]

end Json

namespace Schema

/-! ## Nodes and functions by themselves -/

/-- Is what a node says about itself well typed? -/
def Info.isTyped (i : Info) : Bool :=
  i.id.isWord && i.description.isWord && i.deprecated.isWord && i.extends?.isWord

/-- Is the parameter's name well typed? -/
def Parameter.isTyped (p : Parameter) : Bool := p.name.isWord

/-- Is a function or an event well typed, apart from its types? -/
def Callable.isTyped (c : Callable) : Bool :=
  c.name.isWord && c.async.isWord && c.description.isWord && c.deprecated.isWord &&
    c.parameters.all Parameter.isTyped

/-- Is a shape well typed, apart from the types inside it? -/
def Shape.isTyped : Shape → Bool
  | .reference target => target.isText
  | .function parameters _ async => async.isWord && parameters.all Parameter.isTyped
  | .object _ functions events _ => functions.all Callable.isTyped && events.all Callable.isTyped
  | .unknown type => type.isWord
  | _ => true

/-- Is a node well typed, apart from the types inside it? -/
def Node.isTyped (n : Node) : Bool := n.info.isTyped && n.shape.isTyped

/-- Are all nodes of a list well typed? -/
def Typed (ns : List Node) : Prop := ∀ n ∈ ns, n.isTyped = true

/-- A record that is well typed all through. -/
structure Record.IsTyped (r : Record) : Prop where
  nodes : Typed r.nodes
  callables : ∀ c ∈ r.functions ++ r.events, c.isTyped = true

theorem Typed.append {ns ms : List Node} (h : Typed (ns ++ ms)) : Typed ns ∧ Typed ms :=
  List.forall_mem_append.mp h

theorem Typed.mono {ns ms : List Node} (h : Typed ns) (hsub : ms ⊆ ns) : Typed ms :=
  fun n hn => h n (hsub hn)

theorem Typed.node {i : Info} {s : Shape} (h : Typed (Node.nodes ⟨i, s⟩)) :
    (i.isTyped = true ∧ s.isTyped = true) ∧ Typed s.nodes := by
  rw [Node.nodes] at h
  obtain ⟨hself, hinside⟩ := List.forall_mem_cons.mp h
  exact ⟨Bool.and_eq_true_iff.mp hself, hinside⟩

/-! ## Keys -/

/-- Well typed is what holds words everywhere, and texts for references. -/
def Allowed.words : Allowed where
  name := Json.isWord
  label := Json.isWord
  deprecated := Json.isWord
  async := Json.isWord
  reference := Json.isText
  type := Json.isWord

theorem Allowed.words_implies_simple : Allowed.words.Implies .simple := by
  have hword : ∀ {v : Json}, v.isWord = true → (!v.isComposite) = true := fun h => by
    rw [Json.isComposite_of_isWord h]
    rfl
  exact ⟨hword, hword, hword, hword, fun h => hword (Json.isWord_of_isText h), hword⟩

theorem Node.isTyped_eq (n : Node) : n.isTyped = n.meets .words := by
  obtain ⟨i, s⟩ := n
  cases s <;> rfl

theorem Callable.isTyped_eq (c : Callable) : c.isTyped = c.meets .words := rfl

/-- A well typed node can be part of a key. -/
theorem Node.isSimple_of_isTyped {n : Node} (h : n.isTyped = true) :
    n.meets .simple = true :=
  Node.meets_mono Allowed.words_implies_simple (Node.isTyped_eq n ▸ h)

theorem Callable.hasFunctionKey_of_typed {c : Callable} (hc : c.isTyped = true)
    (h : Typed c.nodes) : c.hasFunctionKey = true := by
  obtain ⟨name, async, description, parameters, returns, deprecated, unsupported⟩ := c
  rw [Callable.nodes] at h
  rw [Callable.isTyped_eq] at hc
  have hsimple := Callable.meets_mono Allowed.words_implies_simple hc
  simp only [Callable.meets, Bool.and_eq_true] at hsimple
  obtain ⟨⟨⟨⟨hname, hasync⟩, -⟩, -⟩, hnames⟩ := hsimple
  exact hasFunctionKey_iff.mpr ⟨hname, hasync, hnames,
    fun n hn => Node.isSimple_of_isTyped (h.append.1 n hn)⟩

theorem Callable.hasEventKey_of_isTyped {c : Callable} (hc : c.isTyped = true) :
    c.hasEventKey = true := by
  simp only [isTyped, Bool.and_eq_true] at hc
  obtain ⟨⟨⟨⟨hname, hasync⟩, -⟩, -⟩, -⟩ := hc
  simp [hasEventKey, Json.isComposite_of_isWord hname, Json.isComposite_of_isWord hasync]

theorem Node.hasTypeKey_of_isTyped {n : Node} (hn : n.isTyped = true) : n.hasTypeKey = true := by
  simp only [isTyped, Info.isTyped, Bool.and_eq_true] at hn
  obtain ⟨⟨⟨⟨hid, -⟩, -⟩, -⟩, -⟩ := hn
  simp [hasTypeKey, Json.isComposite_of_isWord hid]

/-- **The members of a well typed record have keys.** -/
theorem Record.IsTyped.hasKeys {r : Record} (h : r.IsTyped) : r.hasKeys = true := by
  obtain ⟨hfunctions, hevents⟩ := List.forall_mem_append.mp h.callables
  obtain ⟨hmost, -⟩ := h.nodes.append
  obtain ⟨hmost, -⟩ := hmost.append
  obtain ⟨htypes, hnodes⟩ := hmost.append
  simp only [Record.hasKeys, Bool.and_eq_true, List.all_eq_true]
  exact ⟨⟨fun f hf => Callable.hasFunctionKey_of_typed (hfunctions f hf)
      (hnodes.mono (Callable.nodes_subset hf)),
    fun e he => Callable.hasEventKey_of_isTyped (hevents e he)⟩,
    fun n hn => Node.hasTypeKey_of_isTyped (htypes n (Node.nodes_subset hn n.self_mem_nodes))⟩

end Schema

end Typings
