import Typings.Proofs.Composition.Types
import Typings.Proofs.Documentation.BareBlock

/-!
# Blocks are put together from names

What holds of types holds of the declarations around them: where a record names everything by
names and describes everything by texts, nothing stops its block from being written, and the
block is put together and closes what it opens. A file is a header, the blocks of a table one
behind the other, and the line for the second name of the root.

What a declaration needs is a condition on the row of its nodes, `Mentions`, and one on what it
describes. Rows are taken apart in the order in which the lines are written, so each part of a
block gets its own share of the condition, and the lines of the parts are put behind each other.
-/

namespace Typings

open DocComment (IsDescription)
open Outcome (Yields)
open Schema (Node Property Callable Record Mentions)

variable {IsName : String → Prop}

/-- The run ends with lines that are put together. -/
def Outcome.IsComposed (IsName : String → Prop) (o : Outcome (List String)) : Prop :=
  o.Yields fun ls => Composed IsName (linesText ls)

namespace Outcome.IsComposed

theorem nil : IsComposed IsName (return []) := .pure (.plain (by decide))

/-- Lines are put together if the first ones and the ones behind them are. -/
theorem append {o : Outcome (List String)} {f : List String → Outcome (List String)}
    (ho : o.IsComposed IsName)
    (hf : ∀ ls, Composed IsName (linesText ls) → (f ls).IsComposed IsName) :
    (o >>= f).IsComposed IsName := ho.bind hf

end Outcome.IsComposed

/-- Lines between two braces are put together if what stands in front of each brace is. -/
theorem Composed.braced {head foot : String} {ls : List String} (hhead : Composed IsName head)
    (hls : Composed IsName (linesText ls)) (hfoot : Composed IsName foot) :
    Composed IsName (linesText ([head ++ " \x7b"] ++ ls ++ [foot ++ "\x7d"])) := by
  have hnewline : Composed IsName "\n" := .plain (by decide)
  have hbody := ((hnewline.append hls).append hfoot).curly
  have htext : linesText ([head ++ " \x7b"] ++ ls ++ [foot ++ "\x7d"]) =
      head ++ " " ++ ("\x7b" ++ ("\n" ++ linesText ls ++ foot) ++ "\x7d") ++ "\n" := by
    rw [linesText_append, linesText_append, linesText_singleton, linesText_singleton,
      show " \x7b" = " " ++ "\x7b" from rfl]
    simp only [String.append_assoc]
  rw [htext]
  exact ((hhead.append (.plain (by decide))).append hbody).append hnewline

/-! ## Comments -/

/-- **Descriptions are written as one comment**, whatever they say. -/
theorem DocComment.render_composed {ps : List Json} (h : ∀ p ∈ ps, IsDescription p)
    {indent : String} (hindent : indent.toList.all Text.isBlank = true) :
    Outcome.IsComposed IsName (liftM (render ps indent)) := by
  obtain ⟨ls, hls⟩ := bodyLines_ok h
  have hrender : render ps indent = .ok (block indent ls) := by
    rw [render, hls]
    rfl
  exact Yields.lift hrender (.block hindent (endless_bodyLines hls))

/-! ## Functions -/

namespace Signature

/-- The name of a function is written, or left out. -/
theorem head_composed (style : Style) {name : String} (h : Composed IsName name) :
    ∃ head, Signature.head style (.str name) = .ok head ∧ Composed IsName head := by
  have hkeyword : Composed IsName (if style.keyword then "function " else "") := by
    split <;> exact .plain (by decide)
  unfold Signature.head
  cases style.name with
  | false => exact ⟨_, rfl, hkeyword.append (.plain (by decide))⟩
  | true => exact ⟨_, rfl, hkeyword.append h⟩

theorem exportLine_composed {style : Style} (hstyle : style.IsOrderly) {declared name : String}
    (hdeclared : Composed IsName declared) (hname : Composed IsName name) :
    Composed IsName (exportLine style declared name) := by
  have hblank : Composed IsName " " := .plain (by decide)
  have hnames := ((hdeclared.append (.plain (s := " as ") (by decide))).append hname)
  have hcurly := ((hblank.append hnames).append hblank).curly
  have hexport : Composed IsName (style.indent ++ "export ") :=
    (Composed.blank hstyle.indent).append (.plain (by decide))
  have hline := (hexport.append hcurly).append (.plain (s := ";") (by decide))
  -- the text of the line, with what stands between the braces apart
  have htext : exportLine style declared name =
      style.indent ++ "export " ++ ("\x7b" ++ (" " ++ (declared ++ " as " ++ name) ++ " ") ++
        "\x7d") ++ ";" := by
    unfold exportLine
    rw [show "export \x7b " = "export " ++ "\x7b" ++ " " from rfl,
      show " \x7d;" = " " ++ "\x7d" ++ ";" from rfl]
    simp only [String.append_assoc]
  rw [htext]
  exact hline

/-- **A function is declared by lines that are put together**: its comment, its overloads, and
the export of a function that had to be renamed. -/
theorem lines_composed {style : Style} (hstyle : style.IsOrderly) {s : Signature} {name : String}
    (hs : s.IsComposed IsName) (hname : s.name = .str name) (hisName : IsName name)
    (hdescription : IsDescription s.description) (current : String) :
    (s.lines style current).IsComposed IsName := by
  have hcomposed : Composed IsName name := .name hisName
  have hmarked : Composed IsName (Reserved.mark ++ name) :=
    (Composed.plain (by decide)).append hcomposed
  have hrenamed : ∃ renamed, isRenamed style s.name = .ok renamed := by
    rw [hname]
    unfold isRenamed
    split
    · exact ⟨_, rfl⟩
    · exact ⟨_, rfl⟩
  obtain ⟨renamed, hrenamed⟩ := hrenamed
  unfold lines
  refine (callShape_yields hs current).bind fun shape hshape => ?_
  refine (Yields.lift (P := (· = renamed)) hrenamed rfl).bind fun renamed' hrenamed' => ?_
  subst hrenamed'
  have hcomment : Outcome.IsComposed IsName (liftM (s.comment style shape)) := by
    unfold comment
    split
    · exact DocComment.render_composed (isDescription_paragraphs hdescription shape) hstyle.indent
    · exact Yields.lift rfl (.plain (by decide))
  refine hcomment.bind fun doc hdoc => ?_
  -- the name that is declared is the function's own one, or has a mark in front of it
  have hdeclared : ∃ declared, (if renamed' then Json.str (Reserved.mark ++ s.name.display)
      else s.name) = .str declared ∧ Composed IsName declared := by
    rw [hname]
    cases renamed' with
    | true => exact ⟨_, rfl, hmarked⟩
    | false => exact ⟨_, rfl, hcomposed⟩
  obtain ⟨declared, hdeclared, hdeclaredComposed⟩ := hdeclared
  obtain ⟨head, hhead, hheadComposed⟩ := head_composed style hdeclaredComposed
  rw [hdeclared]
  refine (renderEach_yields hstyle hhead hheadComposed hshape).bind fun ls hls => .pure ?_
  refine (hdoc.lines (.each hls)).lines ?_
  cases renamed' with
  | false =>
    rw [if_neg (by decide), linesText_nil]
    exact .plain (by decide)
  | true =>
    have hexport := exportLine_composed hstyle hdeclaredComposed hcomposed
    rw [hname]
    exact hexport.line

end Signature

/-! ## Members -/

/-- A function or an event that can be written: its name and those of its parameters are names,
and it is described by a text. -/
structure Schema.Callable.IsWritable (IsName : String → Prop) (c : Callable) : Prop where
  name : c.name.isText = true ∧ IsName c.name.display
  parameters : ∀ p ∈ c.parameters, p.name.isComposite = false ∧ IsName p.name.display
  description : IsDescription c.description

theorem Schema.Callable.IsWritable.exists_name {c : Callable} (h : c.IsWritable IsName) :
    ∃ name, c.name = .str name ∧ IsName name := by
  obtain ⟨htext, hname⟩ := h.name
  obtain ⟨name, hstr⟩ := Json.exists_str_of_isText htext
  rw [hstr, Json.display_str] at hname
  exact ⟨name, hstr, hname⟩

instance [DecidablePred IsName] (c : Callable) : Decidable (c.IsWritable IsName) :=
  decidable_of_iff ((c.name.isText = true ∧ IsName c.name.display) ∧
      (∀ p ∈ c.parameters, p.name.isComposite = false ∧ IsName p.name.display) ∧
      IsDescription c.description)
    ⟨fun ⟨hname, hparameters, hdescription⟩ => ⟨hname, hparameters, hdescription⟩,
      fun h => ⟨h.name, h.parameters, h.description⟩⟩

namespace Declaration

variable {scope : Scope}

theorem comment_composed {description : Json} (h : IsDescription description) (deprecated : Json)
    {indent : String} (hindent : indent.toList.all Text.isBlank = true) :
    Outcome.IsComposed IsName (liftM (comment description deprecated indent)) :=
  DocComment.render_composed (isDescription_comment h deprecated) hindent

/-- Declarations that are put together one by one are put together behind each other. -/
theorem collect_composed {α : Type} {f : α → Outcome (List String)} {as : List α}
    (h : ∀ a ∈ as, (f a).IsComposed IsName) : (collect f as).IsComposed IsName := by
  induction as with
  | nil => exact .nil
  | cons a as ih =>
    obtain ⟨ha, has⟩ := List.forall_mem_cons.mp h
    exact ha.append fun ls hls => (ih has).append fun rest hrest => .pure (hls.lines hrest)

/-- Functions and events that are left out need not be looked at. -/
theorem callables_composed {f : Callable → Outcome (List String)} {cs : List Callable}
    (hf : ∀ c, c.IsWritable IsName → Mentions IsName c.nodes → (f c).IsComposed IsName)
    (hcs : ∀ c ∈ cs, c.IsWritable IsName) (h : Mentions IsName (Callable.nodesList cs)) :
    (collect f (supported cs)).IsComposed IsName :=
  collect_composed fun c hc =>
    have hmem := (List.mem_filter.mp hc).1
    hf c (hcs c hmem) (h.mono (Callable.nodes_subset hmem))

theorem functionLines_composed (hscope : scope.IsNamed IsName) {style : Signature.Style}
    (hstyle : style.IsOrderly) (c : Callable) (hc : c.IsWritable IsName)
    (h : Mentions IsName c.nodes) :
    ((c.signature scope).lines style scope.current).IsComposed IsName := by
  obtain ⟨name, hname, hisName⟩ := hc.exists_name
  exact Signature.lines_composed hstyle (signature_yields hscope hc.parameters h) hname hisName
    hc.description scope.current

/-- **An event is declared by lines that are put together**, if the name it is declared under
is. -/
theorem eventLines_composed (hscope : scope.IsNamed IsName) {indent : String}
    (hindent : indent.toList.all Text.isBlank = true) {target : Json → Except Fault String}
    (htarget : ∀ name, IsName name →
      ∃ declared, target (.str name) = .ok declared ∧ Composed IsName declared)
    (e : Callable) (he : e.IsWritable IsName) (h : Mentions IsName e.nodes) :
    (eventLines scope indent target e).IsComposed IsName := by
  obtain ⟨name, hname, hisName⟩ := he.exists_name
  obtain ⟨declared, hdeclared, hcomposed⟩ := htarget name hisName
  unfold eventLines
  refine (comment_composed he.description e.deprecated hindent).append fun doc hdoc => ?_
  refine (Signature.type_yields (signature_yields hscope he.parameters h) scope.current).bind
    fun listener hlistener => ?_
  rw [hname]
  refine (Yields.lift hdeclared hcomposed).bind fun declared hdeclared => ?_
  refine .pure (hdoc.lines (Composed.line ?_))
  -- the type of the listener stands between the pointed brackets of the interface
  exact (((((Composed.blank hindent).append hdeclared).append (.plain (by decide))).append
    (.plain (by decide))).append (.plain (by decide))).append hlistener |>.append
    (.plain (by decide))

theorem propertyLines_composed (hscope : scope.IsNamed IsName) {p : Property}
    (hdescription : IsDescription p.node.info.description) (h : Mentions IsName p.node.nodes) :
    (propertyLines scope p).IsComposed IsName := by
  unfold propertyLines
  refine (comment_composed hdescription p.node.info.deprecated (by decide)).append
    fun doc hdoc => ?_
  refine (compile_composed hscope p.node h).type.bind fun type htype => .pure (hdoc.lines ?_)
  exact (((Composed.plain (by decide)).append
    (.member p.name p.node.info.optional htype.toText)).append (.plain (by decide))).line

theorem constantLines_composed (hscope : scope.IsNamed IsName) {p : Property}
    (hname : IsName p.name) (hdescription : IsDescription p.node.info.description)
    (h : Mentions IsName p.node.nodes) : (constantLines scope p).IsComposed IsName := by
  unfold constantLines
  refine (comment_composed hdescription p.node.info.deprecated (by decide)).append
    fun doc hdoc => ?_
  refine (compile_composed hscope p.node h).type.bind fun type htype => .pure (hdoc.lines ?_)
  exact (((((Composed.plain (by decide)).append (.name hname)).append
    (.plain (by decide))).append htype.toText).append (.plain (by decide))).line

theorem indexLines_composed (hscope : scope.IsNamed IsName) {o : Option Node}
    (h : Mentions IsName (Node.nodesOption o)) : (indexLines scope o).IsComposed IsName := by
  cases o with
  | none => exact .nil
  | some n =>
    refine (compile_composed hscope n h).type.bind fun type htype => .pure ?_
    exact (((Composed.plain (by decide)).append (.indexMember htype.toText)).append
      (.plain (by decide))).line

/-! ## Types -/

/-- The nodes and the members of a type are described by texts, and mention only names. -/
structure IsWritable (IsName : String → Prop) (n : Node) : Prop where
  described : ∀ m ∈ n.nodes, IsDescription m.info.description
  mentions : Mentions IsName n.nodes
  members : ∀ c ∈ n.members, c.IsWritable IsName

/-- **The members of an object type are put together.** -/
theorem memberLines_composed (hscope : scope.IsNamed IsName) {n : Node}
    (h : IsWritable IsName n) : (memberLines scope n).IsComposed IsName := by
  obtain ⟨hdescribed, hmentions, hmembers⟩ := h
  obtain ⟨i, s⟩ := n
  cases s with
  | object properties functions events additional =>
    obtain ⟨-, hinside⟩ := hmentions.node
    rw [Node.nodes, Schema.Shape.nodes_object] at hdescribed
    rw [Schema.Shape.nodes_object] at hinside
    -- the nodes of an object type stand in the order of its parts, so they are taken from behind
    obtain ⟨hinside, hadditional⟩ := hinside.append
    obtain ⟨hinside, hevents⟩ := hinside.append
    obtain ⟨hproperties, hfunctions⟩ := hinside.append
    obtain ⟨hfmembers, hemembers⟩ := List.forall_mem_append.mp hmembers
    have hps : ∀ p ∈ supportedProperties (properties.getD []),
        (propertyLines scope p).IsComposed IsName := by
      intro p hp
      have hmem := (List.mem_filter.mp hp).1
      refine propertyLines_composed hscope (hdescribed _ (List.mem_cons_of_mem _ ?_))
        (hproperties.mono (Property.nodes_subset hmem))
      simp [Property.nodes_subset hmem (Node.self_mem_nodes p.node)]
    have hkey : ∀ name, IsName name → ∃ declared, PropertyKey.ofJson (.str name) = .ok declared ∧
        Composed IsName declared := fun name _ => ⟨_, rfl, .key name⟩
    exact (collect_composed hps).append fun ps hps =>
      (indexLines_composed hscope hadditional).append fun index hindex =>
      (callables_composed (functionLines_composed hscope ⟨by decide, by decide⟩)
        hfmembers hfunctions).append fun fs hfs =>
      (callables_composed (eventLines_composed hscope (by decide) hkey)
        hemembers hevents).append fun es hes =>
      .pure (((hps.lines hindex).lines hfs).lines hes)
  -- no other type has members
  | _ => exact .nil

theorem interfaceLines_composed (hscope : scope.IsNamed IsName) {name : String}
    (hname : IsName name) {n : Node} (h : IsWritable IsName n) :
    (interfaceLines scope name n).IsComposed IsName := by
  refine (memberLines_composed hscope h).append fun members hmembers => .pure ?_
  have hhead : Composed IsName ("  interface " ++ name) :=
    (Composed.plain (by decide)).append (.name hname)
  exact Composed.braced hhead hmembers (.plain (s := "  ") (by decide))

/-- The name that a type is written out under, or that the note on it mentions. -/
def shownName (n : Node) : String :=
  if n.info.id = .null then n.info.extends?.display else n.info.id.display

/-- **A type is declared by lines that are put together**, with a name or without. -/
theorem typeLines_composed (hscope : scope.IsNamed IsName) (r : Record) {n : Node}
    (hname : IsName (shownName n)) (h : IsWritable IsName n) :
    (typeLines scope r n).IsComposed IsName := by
  have hdescription : IsDescription n.info.description := h.described n n.self_mem_nodes
  have hcomment : Outcome.IsComposed IsName (liftM (nodeComment n "  ")) :=
    comment_composed hdescription n.info.deprecated (by decide)
  unfold shownName at hname
  unfold typeLines
  split
  case isTrue hid =>
    rw [if_pos hid] at hname
    unfold extensionLines
    split
    · exact hcomment.append fun doc hdoc =>
        (interfaceLines_composed hscope hname h).append fun body hbody => .pure (hdoc.lines hbody)
    · -- the note is a comment that mentions a name
      have hnote := (Composed.plain (s := "  ") (by decide)).append (.note hname)
      have htext : "  /* skipped: $extend " ++ n.info.extends?.display ++ " */" =
          "  " ++ ("/* skipped: $extend " ++ n.info.extends?.display ++ " */") := by
        rw [show "  /* skipped: $extend " = "  " ++ "/* skipped: $extend " from rfl]
        simp only [String.append_assoc]
      rw [htext]
      exact .pure hnote.line
  case isFalse hid =>
    rw [if_neg hid] at hname
    unfold namedTypeLines
    refine hcomment.append fun doc hdoc => ?_
    dsimp only
    split
    · exact (interfaceLines_composed hscope hname h).append fun body hbody =>
        .pure (hdoc.lines hbody)
    · refine (compile_composed hscope n h.mentions).type.bind fun type htype =>
        .pure (hdoc.lines ?_)
      exact (((((Composed.plain (by decide)).append (.name hname)).append
        (.plain (by decide))).append htype.toText).append (.plain (by decide))).line

end Declaration

/-! ## Records -/

/-- A record whose block can be written: names are names, references are texts, and what
describes something is a text. -/
structure Schema.Record.IsWritable (IsName : String → Prop) (r : Record) : Prop where
  name : IsName r.name
  described : r.IsDescribed
  mentions : Mentions IsName r.nodes
  types : ∀ n ∈ r.types, IsName (Declaration.shownName n)
  callables : ∀ c ∈ r.callables, c.IsWritable IsName
  properties : ∀ p ∈ r.properties, IsName p.name

namespace Declaration

/-- A type of a record that can be written can be written. -/
theorem isWritable_of_mem_types {r : Record} (h : r.IsWritable IsName) {n : Node}
    (hn : n ∈ r.types) : IsWritable IsName n := by
  have hnodes : n.nodes ⊆ r.nodes := fun m hm => by simp [Record.nodes, Node.nodes_subset hn hm]
  refine ⟨fun m hm => h.described.nodes m (hnodes hm), h.mentions.mono hnodes, fun c hc => ?_⟩
  refine h.callables c (List.mem_append_right _ ?_)
  exact List.mem_flatMap.mpr ⟨n, hnodes n.self_mem_nodes, hc⟩

/-- **The block of a record can be written, and is put together.** -/
theorem blockLines_composed {t : Table} (ht : ∀ name ∈ t.names, IsName name) {root : String}
    (hroot : IsName root) {r : Record} (h : r.IsWritable IsName) :
    (blockLines t root r).IsComposed IsName := by
  have hscope : Scope.IsNamed IsName ⟨r.name, t⟩ := ht
  -- what a record mentions stands in the order types, functions, events, properties
  obtain ⟨hmentions, hproperties⟩ := h.mentions.append
  obtain ⟨hmentions, hevents⟩ := hmentions.append
  obtain ⟨-, hfunctions⟩ := hmentions.append
  have hdoc : Outcome.IsComposed IsName (liftM (DocComment.render [r.description] "")) :=
    DocComment.render_composed (by simpa using h.described.record) (by decide)
  have htypes : (typesLines ⟨r.name, t⟩ r).IsComposed IsName := by
    refine collect_composed fun n hn => ?_
    have hmem := (List.mem_filter.mp hn).1
    exact typeLines_composed hscope r (h.types n hmem) (isWritable_of_mem_types h hmem)
  have hfs : (functionsLines ⟨r.name, t⟩ r).IsComposed IsName :=
    callables_composed (functionLines_composed hscope ⟨by decide, by decide⟩)
      (fun c hc => h.callables c (by simp [Record.callables, hc])) hfunctions
  have hconst : ∀ name, IsName name →
      ∃ declared, (fun v : Json => Except.ok ("const " ++ v.display)) (.str name) =
        (.ok declared : Except Fault String) ∧ Composed IsName declared :=
    fun name hname => ⟨_, rfl, (Composed.plain (by decide)).append (.name hname)⟩
  have hes : (eventsLines ⟨r.name, t⟩ r).IsComposed IsName :=
    callables_composed (eventLines_composed hscope (by decide) hconst)
      (fun c hc => h.callables c (by simp [Record.callables, hc])) hevents
  have hps : (propertiesLines ⟨r.name, t⟩ r).IsComposed IsName := by
    refine collect_composed fun p hp => ?_
    have hmem := (List.mem_filter.mp hp).1
    refine constantLines_composed hscope (h.properties p hmem) (h.described.nodes _ ?_)
      (hproperties.mono (Property.nodes_subset hmem))
    simp [Record.nodes, Property.nodes_subset hmem (Node.self_mem_nodes p.node)]
  unfold blockLines
  refine hdoc.append fun doc hdoc => htypes.append fun types htypes =>
    hfs.append fun functions hfunctions => hes.append fun events hevents =>
    hps.append fun properties hproperties => .pure ?_
  -- the lines of all parts stand between the braces of the namespace
  have hhead : Composed IsName ("declare namespace " ++ root ++ "." ++ r.name) :=
    (((Composed.plain (by decide)).append (.name hroot)).append (.plain (by decide))).append
      (.name h.name)
  have hbody := ((htypes.lines hfunctions).lines hevents).lines hproperties
  have hbraced := hdoc.lines (Composed.braced hhead hbody (.plain (s := "") (by decide)))
  simpa only [List.append_assoc, String.empty_append] using hbraced

end Declaration

end Typings
