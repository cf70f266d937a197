import Typings.Proofs.Composition.Text
import Typings.Proofs.DeclaredReferences
import Typings.Proofs.OverloadLists
import Typings.Proofs.Subnodes
import Typings.Proofs.WellTyped

/-!
# Types are put together from names

Where references are texts and parameters have names that can be written, nothing stops a type
from being written: every node compiles to a text, and the text is put together from names and
closes what it opens. The same holds of the overloads of a function. What counts as a name is
left open; the names that matter are those of parameters, references and namespaces.

`Yields` says of an outcome that it is a value with some property. It goes through the steps of a
computation, so the mutual induction over nodes, options, members and parameters has one short
case for each shape, and none that treats what would happen at a fault.
-/

namespace Typings

open Schema (Node Shape Parameter Property Callable Convention)

/-! ## Runs that end well -/

namespace Outcome

variable {α β : Type} {P : α → Prop} {Q : β → Prop}

/-- The run ends with a value of this kind. -/
def Yields (P : α → Prop) (o : Outcome α) : Prop := ∃ a, o.result = .ok a ∧ P a

theorem Yields.pure {a : α} (h : P a) : Yields P (pure a) := ⟨a, rfl, h⟩

theorem Yields.lift {r : Except Fault α} {a : α} (hr : r = .ok a) (h : P a) :
    Yields P (liftM r) := ⟨a, hr, h⟩

/-- A run goes on with a value of the kind that its first part yields. -/
theorem Yields.bind {o : Outcome α} {f : α → Outcome β} (h : o.Yields P)
    (hf : ∀ a, P a → (f a).Yields Q) : (o >>= f).Yields Q := by
  obtain ⟨a, ha, hP⟩ := h
  obtain ⟨b, hb, hQ⟩ := hf a hP
  exact ⟨b, (bind_result ha f).trans hb, hQ⟩

theorem Yields.map {o : Outcome α} {f : α → β} (h : o.Yields P) (hf : ∀ a, P a → Q (f a)) :
    (f <$> o).Yields Q := by
  rw [map_eq_pure_bind]
  exact h.bind fun a ha => .pure (hf a ha)

end Outcome

open Outcome (Yields)

variable {IsName : String → Prop}

/-- The expression is a text that is put together. -/
def Expression.IsComposed (IsName : String → Prop) (e : Expression) : Prop :=
  ∃ s, e = .text s ∧ Composed IsName s

theorem Expression.IsComposed.toText {e : Expression} (h : e.IsComposed IsName) :
    Composed IsName e.toText := by
  obtain ⟨s, rfl, hs⟩ := h
  exact hs

/-! ## Parameters -/

namespace Input

/-- A parameter with a name that can be written, and with types that are put together. -/
structure IsComposed (IsName : String → Prop) (p : Input) : Prop where
  simple : p.name.isComposite = false
  name : IsName p.name.display
  type : p.type.Yields (Expression.IsComposed IsName)
  firstArgument : ∀ o, p.firstArgument = some o → o.Yields (Expression.IsComposed IsName)

/-- A reserved word with the mark in front of it is put together from a name. -/
theorem declaredName_ok {p : Input} (h : p.IsComposed IsName) :
    ∃ s, p.declaredName = .ok s ∧ Composed IsName s := by
  have hname : Composed IsName p.name.display := .name h.name
  have hmark : Composed IsName (Reserved.mark ++ p.name.display) :=
    (Composed.plain (by decide)).append hname
  -- only a name without parts can be looked up among the reserved words
  have hcovers : ∃ b, Reserved.covers p.name = .ok b := by
    have hsimple := h.simple
    cases hp : p.name with
    | scalar v => cases v <;> exact ⟨_, rfl⟩
    | arr _ => rw [hp] at hsimple; cases hsimple
    | obj _ => rw [hp] at hsimple; cases hsimple
  obtain ⟨b, hb⟩ := hcovers
  unfold declaredName
  rw [hb]
  cases b with
  | true => exact ⟨_, rfl, hmark⟩
  | false => exact ⟨_, rfl, hname⟩

theorem render_yields {p : Input} (h : p.IsComposed IsName) (trailing : Bool) :
    (p.render trailing).Yields (Composed IsName) := by
  obtain ⟨name, hname, hcomposed⟩ := declaredName_ok h
  have hmark : Composed IsName (p.mark trailing) := by
    unfold mark
    split <;> exact .plain (by decide)
  refine (Yields.lift hname hcomposed).bind fun name hname => h.type.bind fun type htype => ?_
  exact .pure (((hname.append hmark).append (.plain (by decide))).append htype.toText)

theorem renderAll_yields {ps : List Input} (h : ∀ p ∈ ps, p.IsComposed IsName) :
    (renderAll ps).Yields fun ss => ∀ s ∈ ss, Composed IsName s := by
  induction ps with
  | nil => exact .pure (by simp)
  | cons p ps ih =>
    obtain ⟨hp, hps⟩ := List.forall_mem_cons.mp h
    exact (render_yields hp ps.isEmpty).bind fun s hs => (ih hps).bind fun ss hss =>
      .pure (List.forall_mem_cons.mpr ⟨hs, hss⟩)

/-- The parameters of several lists. -/
def renderLists : List (List Input) → Outcome (List (List String))
  | [] => return []
  | ps :: rest => do
    let texts ← renderAll ps
    let lists ← renderLists rest
    return texts :: lists

theorem renderLists_yields {pss : List (List Input)}
    (h : ∀ ps ∈ pss, ∀ p ∈ ps, p.IsComposed IsName) :
    (renderLists pss).Yields fun lists => ∀ ss ∈ lists, ∀ s ∈ ss, Composed IsName s := by
  induction pss with
  | nil => exact .pure (by simp)
  | cons ps pss ih =>
    obtain ⟨hps, hpss⟩ := List.forall_mem_cons.mp h
    exact (renderAll_yields hps).bind fun texts htexts => (ih hpss).bind fun lists hlists =>
      .pure (List.forall_mem_cons.mpr ⟨htexts, hlists⟩)

end Input

/-! ## Signatures -/

/-- What callers see of a function is put together. -/
structure CallShape.IsComposed (IsName : String → Prop) (shape : CallShape) : Prop where
  returns : Composed IsName shape.returns.toText
  inputs : ∀ p ∈ shape.inputs, p.IsComposed IsName

namespace Signature

/-- A function whose parameters and whose result are put together. -/
structure IsComposed (IsName : String → Prop) (s : Signature) : Prop where
  inputs : ∀ p ∈ s.inputs, p.IsComposed IsName
  output : s.output.Yields (Expression.IsComposed IsName)

theorem promise_composed {value : String} (h : Composed IsName value) :
    Composed IsName (promise value).toText :=
  ((Composed.plain (by decide)).append h).append (.plain (by decide))

theorem resolvedType_yields {p : Input} (h : p.IsComposed IsName) :
    (resolvedType p).Yields (Composed IsName) := by
  unfold resolvedType
  cases hfirst : p.firstArgument with
  | none => exact .pure (.plain (by decide))
  | some o =>
    refine (h.firstArgument o hfirst).bind fun type htype => ?_
    obtain ⟨s, rfl, hs⟩ := htype
    cases p.optional with
    | false => exact .pure hs
    | true => exact .pure (hs.parenthesizeText.append (.plain (by decide)))

/-- **Callers see parameters that are put together, and such a result.** -/
theorem callShape_yields {s : Signature} (h : s.IsComposed IsName) (current : String) :
    (s.callShape current).Yields (CallShape.IsComposed IsName) := by
  have hany : Composed IsName untypedPromise.toText := promise_composed (.plain (by decide))
  have hnone : ∀ w, (do Outcome.warn w; return ⟨untypedPromise, []⟩ : Outcome CallShape).Yields
      (CallShape.IsComposed IsName) := fun _ => ⟨_, rfl, hany, by simp⟩
  unfold callShape
  cases Convention.of s.async with
  | direct => exact h.output.bind fun returns hreturns => .pure ⟨hreturns.toText, h.inputs⟩
  | promise => exact .pure ⟨hany, h.inputs⟩
  | unknown => exact hnone _
  | callback name =>
    dsimp only
    cases hfind : s.inputs.find? (Input.isNamed name) with
    | none => exact hnone _
    -- the callback is taken from the parameters, and the others stay
    | some callback =>
      have hcallback := h.inputs callback (List.mem_of_find?_eq_some hfind)
      exact (resolvedType_yields hcallback).bind fun value hvalue =>
        .pure ⟨promise_composed hvalue, fun p hp => h.inputs p (List.mem_filter.mp hp).1⟩

/-- The line of an overload around its parameters. -/
def overloadLine (style : Style) (head : String) (returns : Expression)
    (arguments : List String) : String :=
  let text := head ++ "(" ++ ", ".intercalate arguments ++
    (if style.arrow then ") => " else "): ") ++ returns.toText
  style.indent ++ (if style.parenthesize then "(" ++ text ++ ")" else text) ++ style.delimiter

/-- **The overloads of a function are its parameter lists**, each one between the same head and
the same result. -/
theorem renderEach_eq {style : Style} {name : Json} {head : String}
    (h : Signature.head style name = .ok head) (returns : Expression)
    (lists : List (List Input)) :
    renderEach style name returns lists =
      List.map (overloadLine style head returns) <$> Input.renderLists lists := by
  induction lists with
  | nil => rfl
  | cons inputs lists ih =>
    -- the head is the same for every list
    have hone : renderOne style name returns inputs =
        overloadLine style head returns <$> Input.renderAll inputs := by
      unfold renderOne
      rw [h, map_eq_pure_bind]
      rfl
    rw [renderEach, Input.renderLists, ih, hone]
    simp only [map_bind, bind_map_left, map_pure, List.map_cons]

/-- A style that puts blanks in front of its lines, and plain signs behind them. -/
structure Style.IsOrderly (style : Style) : Prop where
  indent : style.indent.toList.all Text.isBlank = true
  delimiter : style.delimiter.toList.all Text.isPlain = true

theorem overloadLine_composed {style : Style} (hstyle : style.IsOrderly) {head : String}
    (hhead : Composed IsName head) {returns : Expression}
    (hreturns : Composed IsName returns.toText) {arguments : List String}
    (harguments : ∀ s ∈ arguments, Composed IsName s) :
    Composed IsName (overloadLine style head returns arguments) := by
  have hindent : Composed IsName style.indent := .blank hstyle.indent
  have hround : Composed IsName ("(" ++ ", ".intercalate arguments ++ ")") :=
    (Composed.intercalate (by decide) harguments).round
  -- the bracket that closes the parameters is written together with what follows it
  have htext : Composed IsName (head ++ "(" ++ ", ".intercalate arguments ++
      (if style.arrow then ") => " else "): ") ++ returns.toText) := by
    have hsign : ∃ sign : String, sign.toList.all Text.isPlain = true ∧
        (if style.arrow then ") => " else "): ") = ")" ++ sign := by
      split
      · exact ⟨" => ", by decide, rfl⟩
      · exact ⟨": ", by decide, rfl⟩
    obtain ⟨sign, hplain, hsign⟩ := hsign
    have h := ((hhead.append hround).append (.plain hplain)).append hreturns
    rw [hsign]
    simpa only [String.append_assoc] using h
  unfold overloadLine
  dsimp only
  refine (hindent.append ?_).append (.plain hstyle.delimiter)
  split
  · exact htext.round
  · exact htext

theorem overloads_composed {shape : CallShape} (h : shape.IsComposed IsName) :
    ∀ ps ∈ shape.overloads, ∀ p ∈ ps, p.IsComposed IsName :=
  fun _ hps p hp => h.inputs p ((Overload.sublist_of_mem_lists hps).subset hp)

theorem renderEach_yields {style : Style} (hstyle : style.IsOrderly) {name : Json} {head : String}
    (hname : Signature.head style name = .ok head) (hhead : Composed IsName head)
    {shape : CallShape} (h : shape.IsComposed IsName) :
    (renderEach style name shape.returns shape.overloads).Yields
      fun ls => ∀ l ∈ ls, Composed IsName l := by
  rw [renderEach_eq hname]
  refine (Input.renderLists_yields (overloads_composed h)).map fun lists hlists l hl => ?_
  obtain ⟨arguments, harguments, rfl⟩ := List.mem_map.mp hl
  exact overloadLine_composed hstyle hhead h.returns (hlists arguments harguments)

/-! ### Function types -/

theorem isOrderly_inline : Style.inline.IsOrderly := ⟨by decide, by decide⟩

/-- A function type has no comment and needs no other name. -/
theorem lines_inline {current : String} {s : Signature} {shape : CallShape} {ls : List String}
    (hshape : (s.callShape current).result = .ok shape)
    (hls : (renderEach Style.inline s.name shape.returns shape.overloads).result = .ok ls) :
    (s.lines Style.inline current).result = .ok ls := by
  have hrenamed : isRenamed Style.inline s.name = .ok false := rfl
  have hcomment : s.comment Style.inline shape = .ok [] := rfl
  unfold lines
  rw [Outcome.bind_result hshape, hrenamed, Outcome.bind_result (Outcome.lift_result _), hcomment,
    Outcome.bind_result (Outcome.lift_result _)]
  simp only [Bool.false_eq_true, if_false]
  rw [Outcome.bind_result hls]
  simp

theorem union_composed {ls : List String} (h : ∀ l ∈ ls, Composed IsName l) :
    Composed IsName (union ls) := by
  unfold union
  split
  · exact h _ (List.mem_singleton_self _)
  · refine Composed.intercalate (by decide) fun s hs => ?_
    obtain ⟨l, hl, rfl⟩ := List.mem_map.mp hs
    exact (h l hl).round

/-- **The type of a function is put together.** -/
theorem type_yields {s : Signature} (h : s.IsComposed IsName) (current : String) :
    (s.type current).Yields (Composed IsName) := by
  obtain ⟨shape, hshape, hcomposed⟩ := callShape_yields h current
  have hhead : Signature.head Style.inline s.name = .ok "" := rfl
  obtain ⟨ls, hls, hlines⟩ :=
    renderEach_yields isOrderly_inline hhead (.plain (by decide)) hcomposed
  exact Yields.map ⟨ls, lines_inline hshape hls, hlines⟩ fun ls hlines => union_composed hlines

end Signature

/-! ## References -/

namespace Schema

/-- Does a shape mention nothing but names, apart from the types inside it? -/
def Shape.Mentions (IsName : String → Prop) : Shape → Prop
  | .reference target => target.isText = true ∧ IsName target.display
  | .function parameters _ _ =>
    ∀ p ∈ parameters, p.name.isComposite = false ∧ IsName p.name.display
  | _ => True

instance [DecidablePred IsName] : (s : Shape) → Decidable (s.Mentions IsName)
  | .reference target =>
    inferInstanceAs (Decidable (target.isText = true ∧ IsName target.display))
  | .function parameters _ _ => inferInstanceAs (Decidable
      (∀ p ∈ parameters, p.name.isComposite = false ∧ IsName p.name.display))
  | .number _ | .string _ | .array _ | .boolean | .choice _ | .any | .object .. | .constant _
  | .unknown _ => isTrue trivial

/-- Do all nodes of a list mention nothing but names? -/
def Mentions (IsName : String → Prop) (ns : List Node) : Prop :=
  ∀ n ∈ ns, n.shape.Mentions IsName

instance [DecidablePred IsName] (ns : List Node) : Decidable (Mentions IsName ns) :=
  inferInstanceAs (Decidable (∀ n ∈ ns, n.shape.Mentions IsName))

theorem Mentions.append {ns ms : List Node} (h : Mentions IsName (ns ++ ms)) :
    Mentions IsName ns ∧ Mentions IsName ms := List.forall_mem_append.mp h

theorem Mentions.mono {ns ms : List Node} (h : Mentions IsName ns) (hsub : ms ⊆ ns) :
    Mentions IsName ms := fun n hn => h n (hsub hn)

theorem Mentions.node {i : Info} {s : Shape} (h : Mentions IsName (Node.nodes ⟨i, s⟩)) :
    s.Mentions IsName ∧ Mentions IsName s.nodes := by
  rw [Node.nodes] at h
  exact List.forall_mem_cons.mp h

end Schema

/-- Are the namespaces of a table named by names? -/
def Scope.IsNamed (IsName : String → Prop) (scope : Scope) : Prop :=
  ∀ name ∈ scope.table.names, IsName name

variable {scope : Scope}

/-- **A reference is a name, or has the name of a namespace in front of it.** -/
theorem Scope.qualify_yields (hscope : scope.IsNamed IsName) {ref : String} (h : IsName ref) :
    (scope.qualify (.str ref)).Yields (Expression.IsComposed IsName) := by
  have hbare : Expression.IsComposed IsName (.ofName (.str ref)) := ⟨ref, rfl, .name h⟩
  have hqualified : isQualified (.str ref) = .ok (Text.mentions "." ref) := rfl
  unfold qualify
  -- with a point, unresolved, in its own namespace, or in another one
  rw [hqualified]
  refine (Yields.lift (P := fun _ => True) rfl trivial).bind fun qualified _ => ?_
  split
  · exact .pure hbare
  · split
    · exact ⟨_, rfl, hbare⟩
    · rename_i name hname
      split
      · exact .pure hbare
      · obtain ⟨r, hr, -⟩ := Table.declares_of_resolve hname
        have hmem : name ∈ scope.table.names :=
          List.mem_map.mpr ⟨r, Keyed.mem_of_find? hr, Table.name_of_get? hr⟩
        exact .pure ⟨_, rfl, ((Composed.name (hscope name hmem)).append
          (.plain (by decide))).append (.name h)⟩

/-! ## Types -/

/-- An array's expression is a text. -/
theorem Expression.array_text (s : String) :
    Expression.array (.text s) = .text (Expression.array (.text s)).toText := by
  unfold Expression.array
  split <;> rfl

/-- A compiled node that is put together, as is the type of its first parameter. -/
structure Compiled.IsComposed (IsName : String → Prop) (c : Compiled) : Prop where
  type : c.type.Yields (Expression.IsComposed IsName)
  firstArgument : ∀ o, c.firstArgument = some o → o.Yields (Expression.IsComposed IsName)

theorem Compiled.isComposed_of_yields {o : Outcome Expression}
    (h : o.Yields (Expression.IsComposed IsName)) : Compiled.IsComposed IsName { type := o } :=
  ⟨h, fun _ ho => absurd ho (by simp)⟩

/-- A type without parts. -/
theorem Compiled.isComposed_text {s : String} (h : Composed IsName s) :
    Compiled.IsComposed IsName { type := return .text s } :=
  isComposed_of_yields (.pure ⟨s, rfl, h⟩)

section Nodes

open Schema (Mentions)

mutual

/-- **A node whose references and parameters are names compiles to a text that is put
together.** -/
theorem compile_composed (hscope : scope.IsNamed IsName) : (n : Node) →
    Mentions IsName n.nodes → (compile scope n).IsComposed IsName
  | ⟨_, .reference target⟩, h => by
    obtain ⟨htext, hname⟩ := h.node.1
    obtain ⟨ref, rfl⟩ := Json.exists_str_of_isText htext
    rw [Json.display_str] at hname
    rw [compile]
    exact Compiled.isComposed_of_yields (Scope.qualify_yields hscope hname)
  | ⟨_, .number _⟩, _ => by
    rw [compile]
    exact Compiled.isComposed_text (.plain (by decide))
  | ⟨_, .string members⟩, _ => by
    rw [compile]
    exact Compiled.isComposed_text (.ofMembers members)
  -- an array whose items are missing raises a warning, but its text is a constant
  | ⟨_, .array none⟩, _ => by
    have hunknown : Composed IsName (Expression.unknown ++ "[]") :=
      (Composed.plain (by decide)).append .brackets
    rw [compile]
    exact Compiled.isComposed_of_yields ⟨_, rfl, _, rfl, hunknown⟩
  | ⟨_, .array (some items)⟩, h => by
    rw [compile]
    refine Compiled.isComposed_of_yields ?_
    refine (compile_composed hscope items h.node.2).type.bind fun type htype => ?_
    obtain ⟨s, rfl, hs⟩ := htype
    exact .pure ⟨_, Expression.array_text s, hs.array⟩
  | ⟨_, .boolean⟩, _ => by
    rw [compile]
    exact Compiled.isComposed_text (.plain (by decide))
  | ⟨_, .choice options⟩, h => by
    rw [compile]
    exact Compiled.isComposed_of_yields
      ((compileOptions_composed hscope options h.node.2).bind fun ss hss =>
        .pure ⟨_, rfl, .union hss⟩)
  | ⟨_, .function parameters returns _⟩, h => by
    obtain ⟨hnames, hinside⟩ := h.node
    obtain ⟨hparameters, hreturns⟩ := hinside.append
    have hinputs := compileInputs_composed hscope parameters hnames hparameters
    rw [compile]
    -- the type itself, and the type of the first parameter, which a promise resolves to
    refine ⟨?_, fun o ho => ?_⟩
    · exact (Signature.type_yields
        ⟨hinputs, compileOutput_composed hscope returns hreturns⟩ scope.current).map
        fun s hs => ⟨s, rfl, hs⟩
    · obtain ⟨p, hp, rfl⟩ := Option.map_eq_some_iff.mp ho
      exact (hinputs p (List.mem_of_head? hp)).type
  | ⟨_, .any⟩, _ => by
    rw [compile]
    exact Compiled.isComposed_text (.plain (by decide))
  | ⟨_, .object none _ _ none⟩, _ => by
    rw [compile]
    exact Compiled.isComposed_text (.plain (by decide))
  | ⟨_, .object none _ _ (some additional)⟩, h => by
    rw [compile]
    refine Compiled.isComposed_of_yields ?_
    refine (compile_composed hscope additional h.node.2.append.2).type.bind fun type htype => ?_
    have hindex : ∀ m ∈ [Expression.indexMember type], Composed IsName m := fun m hm =>
      List.mem_singleton.mp hm ▸ .indexMember htype.toText
    exact .pure ⟨_, rfl, .ofObject hindex⟩
  | ⟨_, .object (some properties) _ _ additional⟩, h => by
    obtain ⟨hmembers, hadditional⟩ := h.node.2.append
    rw [compile]
    refine Compiled.isComposed_of_yields ?_
    refine (compileMembers_composed hscope properties hmembers.append.1.append.1).bind
      fun ms hms => ?_
    refine (compileIndex_composed hscope additional hadditional).bind fun is his => ?_
    exact .pure ⟨_, rfl, .ofObject (List.forall_mem_append.mpr ⟨hms, his⟩)⟩
  | ⟨_, .constant value⟩, _ => by
    rw [compile]
    exact Compiled.isComposed_text (.ofScalar value)
  | ⟨_, .unknown _⟩, _ => by
    rw [compile]
    exact Compiled.isComposed_text (.plain (by decide))

theorem compileOptions_composed (hscope : scope.IsNamed IsName) : (ns : List Node) →
    Mentions IsName (Node.nodesList ns) →
    (compileOptions scope ns).Yields fun ss => ∀ s ∈ ss, Composed IsName s
  | [], _ => by
    rw [compileOptions]
    exact .pure (by simp)
  | n :: ns, h => by
    rw [Node.nodesList] at h
    rw [compileOptions]
    refine (compile_composed hscope n h.append.1).type.bind fun type htype => ?_
    obtain ⟨s, rfl, hs⟩ := htype
    -- an option may stand between parentheses
    have hoption : Expression.option (.text s) = .ok (Expression.parenthesizeText s) := rfl
    refine (Yields.lift hoption hs.parenthesizeText).bind fun option hoption => ?_
    exact (compileOptions_composed hscope ns h.append.2).bind fun ss hss =>
      .pure (List.forall_mem_cons.mpr ⟨hoption, hss⟩)

theorem compileMembers_composed (hscope : scope.IsNamed IsName) : (ps : List Property) →
    Mentions IsName (Property.nodesList ps) →
    (compileMembers scope ps).Yields fun ms => ∀ m ∈ ms, Composed IsName m
  | [], _ => by
    rw [compileMembers]
    exact .pure (by simp)
  | ⟨name, n⟩ :: ps, h => by
    rw [Property.nodesList] at h
    have hrest := compileMembers_composed hscope ps h.append.2
    rw [compileMembers]
    -- a property that is not supported is no member
    split
    · exact hrest
    · refine (compile_composed hscope n h.append.1).type.bind fun type htype => ?_
      exact hrest.bind fun ms hms =>
        .pure (List.forall_mem_cons.mpr ⟨.member name n.info.optional htype.toText, hms⟩)

theorem compileIndex_composed (hscope : scope.IsNamed IsName) : (o : Option Node) →
    Mentions IsName (Node.nodesOption o) →
    (compileIndex scope o).Yields fun ms => ∀ m ∈ ms, Composed IsName m
  | none, _ => by
    rw [compileIndex]
    exact .pure (by simp)
  | some n, h => by
    rw [compileIndex]
    exact (compile_composed hscope n h).type.bind fun type htype =>
      .pure fun m hm => List.mem_singleton.mp hm ▸ .indexMember htype.toText

theorem compileInputs_composed (hscope : scope.IsNamed IsName) : (ps : List Parameter) →
    (∀ p ∈ ps, p.name.isComposite = false ∧ IsName p.name.display) →
    Mentions IsName (Parameter.nodesList ps) →
    ∀ p ∈ compileInputs scope ps, p.IsComposed IsName
  | [], _, _ => by rw [compileInputs]; simp
  | ⟨name, n⟩ :: ps, hnames, h => by
    rw [Parameter.nodesList] at h
    obtain ⟨⟨hsimple, hname⟩, hnames⟩ := List.forall_mem_cons.mp hnames
    have hn := compile_composed hscope n h.append.1
    rw [compileInputs]
    exact List.forall_mem_cons.mpr ⟨⟨hsimple, hname, hn.type, hn.firstArgument⟩,
      compileInputs_composed hscope ps hnames h.append.2⟩

theorem compileOutput_composed (hscope : scope.IsNamed IsName) : (o : Option Node) →
    Mentions IsName (Node.nodesOption o) →
    (compileOutput scope o).Yields (Expression.IsComposed IsName)
  | none, _ => by
    rw [compileOutput]
    exact .pure ⟨_, rfl, .plain (by decide)⟩
  | some n, h => by
    have harray : Composed IsName "any[]" :=
      (Composed.plain (s := "any") (by decide)).append .brackets
    rw [compileOutput]
    split
    · exact .pure ⟨_, rfl, harray⟩
    · exact (compile_composed hscope n h).type

end

/-- **A function whose references and parameters are names has a signature that is put
together.** -/
theorem signature_yields (hscope : scope.IsNamed IsName) {c : Callable}
    (hnames : ∀ p ∈ c.parameters, p.name.isComposite = false ∧ IsName p.name.display)
    (h : Mentions IsName c.nodes) : (c.signature scope).IsComposed IsName := by
  obtain ⟨name, async, description, parameters, returns, deprecated, unsupported⟩ := c
  rw [Callable.nodes] at h
  exact ⟨compileInputs_composed hscope parameters hnames h.append.1,
    compileOutput_composed hscope returns h.append.2⟩

end Nodes

end Typings
