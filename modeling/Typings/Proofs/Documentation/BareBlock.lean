import Typings.Proofs.Documentation.Bare
import Typings.Proofs.Documentation.StrippedLines
import Typings.Proofs.Grouping

/-!
# Documentation never changes code

Two runs of the whole emitter are compared here: one over a table, and one over the same table
without documentation. Step by step both raise the same warnings and stop at the same faults,
and what the first one writes is, but for its comment blocks, what the second one writes.

`Related` compares two outcomes: the same warnings, and then either the same fault or two values
that are related, where the relation is that the comment blocks of the one can be stripped. It is
kept by every step that puts lines behind each other, and only a comment itself makes a difference.
-/

namespace Typings

/-! ## Runs side by side -/

namespace Outcome

variable {α β γ δ : Type} {R : α → β → Prop} {S : γ → δ → Prop}

/-- Two runs that raise the same warnings, in the same order, and end with values that are
related, or with the same fault. -/
inductive Related (R : α → β → Prop) : Outcome α → Outcome β → Prop
  | ok {ws : List Warning} {a : α} {b : β} : R a b → Related R ⟨ws, .ok a⟩ ⟨ws, .ok b⟩
  | error {ws : List Warning} {e : Fault} : Related R ⟨ws, .error e⟩ ⟨ws, .error e⟩

namespace Related

theorem pure {a : α} {b : β} (h : R a b) : Related R (pure a) (pure b) := .ok h

/-- Related runs go on with related values. -/
theorem bind {o : Outcome α} {o' : Outcome β} {f : α → Outcome γ} {g : β → Outcome δ}
    (h : Related R o o') (hfg : ∀ a b, R a b → Related S (f a) (g b)) :
    Related S (o >>= f) (o' >>= g) := by
  cases h with
  | error => exact .error
  | @ok ws a b hab =>
    have hab := hfg a b hab
    -- both go on behind the same warnings
    rw [ok_bind, ok_bind]
    generalize f a = o at hab ⊢
    generalize g b = o' at hab ⊢
    cases hab with
    | ok h => exact .ok h
    | error => exact .error

/-- A run is the same on both sides up to where the sides differ. -/
theorem same_bind (o : Outcome α) {f : α → Outcome γ} {g : α → Outcome δ}
    (hfg : ∀ a, Related S (f a) (g a)) : Related S (o >>= f) (o >>= g) := by
  refine bind (R := Eq) ?_ fun a b hab => hab ▸ hfg a
  rcases o with ⟨ws, _ | a⟩
  · exact .error
  · exact .ok rfl

/-- A function that gives related values is all that two related runs differ in. -/
theorem map_eq {o : Outcome α} {o' : Outcome β} {f : α → β} (h : Related R o o')
    (hf : ∀ a b, R a b → f a = b) : f <$> o = o' := by
  cases h with
  | error => rfl
  | ok hab => rw [← hf _ _ hab, map_eq_pure_bind, ok_bind, pure_eq, List.append_nil]

end Related

end Outcome

open Outcome (Related)
open DocComment (StripsTo IsDescription)

/-! ## Comment blocks -/

/-- Descriptions are written as a comment block, and none is written without them. -/
theorem DocComment.render_related {ps : List Json} (h : ∀ p ∈ ps, IsDescription p)
    {indent : String} (hindent : indent.toList.all Text.isBlank = true) :
    Related StripsTo (liftM (render ps indent)) (liftM (render [.null] indent)) := by
  obtain ⟨ls, hls⟩ := render_ok h indent
  rw [hls]
  exact .ok (stripsTo_block hindent ls)

namespace Declaration

/-- What a declaration says about itself are descriptions. -/
theorem isDescription_comment {description : Json} (h : IsDescription description)
    (deprecated : Json) :
    ∀ p ∈ description :: DocComment.deprecation deprecated, IsDescription p :=
  List.forall_mem_cons.mpr ⟨h, fun _ => DocComment.isDescription_deprecation⟩

/-- Whatever a declaration says about itself is written as a comment block. -/
theorem comment_related {description : Json} (h : IsDescription description) (deprecated : Json)
    {indent : String} (hindent : indent.toList.all Text.isBlank = true) :
    Related StripsTo (liftM (comment description deprecated indent))
      (liftM (comment .null (.bool false) indent)) :=
  DocComment.render_related (isDescription_comment h deprecated) hindent

/-- Declarations that are related one by one are related as they stand behind each other. -/
theorem collect_related {α β : Type} {f : α → Outcome (List String)}
    {g : β → Outcome (List String)} {h : α → β} {as : List α}
    (hfg : ∀ a ∈ as, Related StripsTo (f a) (g (h a))) :
    Related StripsTo (collect f as) (collect g (as.map h)) := by
  induction as with
  | nil => exact .ok .nil
  | cons a as ih =>
    obtain ⟨ha, has⟩ := List.forall_mem_cons.mp hfg
    exact ha.bind fun _ _ hls => (ih has).bind fun _ _ hrest => .pure (hls.append hrest)

end Declaration

/-! ## Signatures -/

namespace Signature

/-- What is said about a function and its parameters are descriptions. -/
theorem isDescription_paragraphs {s : Signature} (h : IsDescription s.description)
    (shape : CallShape) : ∀ p ∈ s.paragraphs shape, IsDescription p := by
  intro p hp
  rcases List.mem_append.mp hp with hp | hp
  · rcases List.mem_cons.mp hp with rfl | hp
    · exact h
    · obtain ⟨q, -, rfl⟩ := List.mem_map.mp hp
      exact DocComment.isDescription_str _
  · exact DocComment.isDescription_deprecation hp

theorem comment_related {style : Style} (hstyle : style.description = true)
    (hindent : style.indent.toList.all Text.isBlank = true) {s : Signature}
    (h : IsDescription s.description) (shape : CallShape) :
    Related StripsTo (liftM (s.comment style shape)) (liftM (s.bare.comment style shape.bare)) := by
  have hbare : s.bare.paragraphs shape.bare = [.null] := by
    have hnone : (shape.inputs.map Input.bare).filter (fun p => p.description.isSet) = [] := by
      rw [List.filter_map]
      simp [Function.comp_def, Input.bare, Json.isSet]
    simp [paragraphs, Input.paragraphs, CallShape.bare, bare, hnone, DocComment.deprecation]
  rw [comment, comment, if_pos hstyle, if_pos hstyle, hbare]
  exact DocComment.render_related (isDescription_paragraphs h shape) hindent

/-- Overloads are code. -/
theorem renderEach_related {style : Style} (hdelimiter : DocComment.endsCode style.delimiter = true)
    (name : Json) (returns : Expression) (lists : List (List Input)) :
    Related StripsTo (renderEach style name returns lists)
      (renderEach style name returns lists) := by
  induction lists with
  | nil => exact .ok .nil
  | cons inputs lists ih =>
    have hone : Related (fun l l' => StripsTo [l] [l']) (renderOne style name returns inputs)
        (renderOne style name returns inputs) :=
      .same_bind _ fun _ => .same_bind _ fun _ =>
        .pure (.of_not_opens (DocComment.opens_append _ hdelimiter))
    exact hone.bind fun _ _ hline => ih.bind fun _ _ hlines => .pure (hline.append hlines)

/-- **The comment block is all that the documentation of a function changes.** -/
theorem lines_related {style : Style} (hstyle : style.description = true)
    (hindent : style.indent.toList.all Text.isBlank = true)
    (hdelimiter : DocComment.endsCode style.delimiter = true) (current : String) {s : Signature}
    (h : IsDescription s.description) :
    Related StripsTo (s.lines style current) (s.bare.lines style current) := by
  unfold lines
  rw [callShape_bare, bind_map_left]
  refine .same_bind _ fun shape => .same_bind _ fun renamed =>
    (comment_related hstyle hindent h shape).bind fun doc doc' hdoc => ?_
  rw [overloads_bare, renderEach_bare]
  refine (renderEach_related hdelimiter _ _ _).bind fun ls ls' hls => .pure ?_
  -- the line of the export is code
  refine (hdoc.append hls).append ?_
  cases renamed with
  | false => exact .nil
  | true => exact .of_not_opens (DocComment.opens_append _ (by decide))

end Signature

/-! ## Declarations -/

namespace Declaration

open DocComment (opens_append)
open Schema (Node Shape Property Callable Record)

variable {scope : Scope}

/-- Properties that are supported are related if they are one by one. -/
theorem properties_related {f g : Property → Outcome (List String)}
    (hfg : ∀ p, IsDescription p.node.info.description → Related StripsTo (f p) (g p.bare))
    {ps : List Property} (h : ∀ p ∈ ps, IsDescription p.node.info.description) :
    Related StripsTo (collect f (supportedProperties ps))
      (collect g (supportedProperties (ps.map Property.bare))) := by
  have hbare : supportedProperties (ps.map Property.bare) =
      (supportedProperties ps).map Property.bare := by
    unfold supportedProperties
    rw [List.filter_map]
    simp only [Function.comp_def, Property.bare, Node.bare_info, Schema.Info.bare]
  rw [hbare]
  exact collect_related fun p hp => hfg p (h p (List.mem_filter.mp hp).1)

/-- So are functions or events. -/
theorem callables_related {f g : Callable → Outcome (List String)}
    (hfg : ∀ c, IsDescription c.description → Related StripsTo (f c) (g c.bare))
    {cs : List Callable} (h : ∀ c ∈ cs, IsDescription c.description) :
    Related StripsTo (collect f (supported cs))
      (collect g (supported (cs.map Callable.bare))) := by
  have hbare : supported (cs.map Callable.bare) = (supported cs).map Callable.bare := by
    unfold supported
    rw [List.filter_map]
    simp only [Function.comp_def, Callable.bare_unsupported]
  rw [hbare]
  exact collect_related fun c hc => hfg c (h c (List.mem_filter.mp hc).1)

/-- A node says the same about itself without documentation, but for the comment block. -/
theorem nodeComment_related {n : Node} (h : IsDescription n.info.description) {indent : String}
    (hindent : indent.toList.all Text.isBlank = true) :
    Related StripsTo (liftM (nodeComment n indent)) (liftM (nodeComment n.bare indent)) := by
  rw [nodeComment, nodeComment, Node.bare_info]
  exact comment_related h n.info.deprecated hindent

theorem propertyLines_related {p : Property} (h : IsDescription p.node.info.description) :
    Related StripsTo (propertyLines scope p) (propertyLines scope.bare p.bare) := by
  unfold propertyLines
  rw [Property.bare, expression_bare, Node.bare_info]
  exact (nodeComment_related h (by decide)).bind fun _ _ hdoc => .same_bind _ fun _ =>
    .pure (hdoc.append (.of_not_opens (opens_append _ (by decide))))

theorem constantLines_related {p : Property} (h : IsDescription p.node.info.description) :
    Related StripsTo (constantLines scope p) (constantLines scope.bare p.bare) := by
  unfold constantLines
  rw [Property.bare, expression_bare]
  exact (nodeComment_related h (by decide)).bind fun _ _ hdoc => .same_bind _ fun _ =>
    .pure (hdoc.append (.of_not_opens (opens_append _ (by decide))))

theorem indexLines_related (o : Option Node) :
    Related StripsTo (indexLines scope o) (indexLines scope.bare (o.map Node.bare)) := by
  cases o with
  | none => exact .pure .nil
  | some n =>
    rw [Option.map_some, indexLines, indexLines, expression_bare]
    exact .same_bind _ fun _ => .pure (.of_not_opens (opens_append _ (by decide)))

theorem eventLines_related {indent : String} (hindent : indent.toList.all Text.isBlank = true)
    {target : Json → Except Fault String} {e : Callable} (h : IsDescription e.description) :
    Related StripsTo (eventLines scope indent target e)
      (eventLines scope.bare indent target e.bare) := by
  unfold eventLines Callable.listenerType
  rw [signature_bare, Signature.type_bare, Callable.bare_description, Callable.bare_deprecated,
    Callable.bare_name]
  exact (comment_related h e.deprecated hindent).bind fun _ _ hdoc => .same_bind _ fun _ =>
    .same_bind _ fun _ => .pure (hdoc.append (.of_not_opens (opens_append _ (by decide))))

theorem functionLines_related (style : Signature.Style) (hstyle : style.description = true)
    (hindent : style.indent.toList.all Text.isBlank = true)
    (hdelimiter : DocComment.endsCode style.delimiter = true) {c : Callable}
    (h : IsDescription c.description) :
    Related StripsTo ((c.signature scope).lines style scope.current)
      ((c.bare.signature scope.bare).lines style scope.bare.current) := by
  rw [signature_bare]
  exact Signature.lines_related hstyle hindent hdelimiter scope.current h

/-- **The members of an object type are the same lines of code without documentation.** -/
theorem memberLines_related {n : Node} (hnodes : ∀ m ∈ n.nodes, IsDescription m.info.description)
    (hmembers : ∀ c ∈ n.members, IsDescription c.description) :
    Related StripsTo (memberLines scope n) (memberLines scope.bare n.bare) := by
  obtain ⟨i, s⟩ := n
  rw [Node.bare]
  cases s with
  | object properties functions events additional =>
    rw [Node.nodes, Shape.nodes_object] at hnodes
    obtain ⟨hfunctions, hevents⟩ := List.forall_mem_append.mp hmembers
    have hproperties : ∀ p ∈ properties.getD [], IsDescription p.node.info.description :=
      fun p hp => hnodes _ (List.mem_cons_of_mem _ (by
        simp [Property.nodes_subset hp (Node.self_mem_nodes p.node)]))
    have hbare : (properties.map (List.map Property.bare)).getD [] =
        (properties.getD []).map Property.bare := by
      cases properties <;> rfl
    -- part by part, in the order in which the lines are written
    rw [Shape.bare_object]
    simp only [memberLines, hbare]
    exact (properties_related (fun _ => propertyLines_related) hproperties).bind fun _ _ hps =>
      (indexLines_related additional).bind fun _ _ hindex =>
      (callables_related (fun _ => functionLines_related .method rfl (by decide) (by decide))
        hfunctions).bind fun _ _ hfs =>
      (callables_related (fun _ => eventLines_related (by decide)) hevents).bind fun _ _ hes =>
      .pure (((hps.append hindex).append hfs).append hes)
  | _ => exact .ok .nil

theorem interfaceLines_related (name : String) {n : Node}
    (hnodes : ∀ m ∈ n.nodes, IsDescription m.info.description)
    (hmembers : ∀ c ∈ n.members, IsDescription c.description) :
    Related StripsTo (interfaceLines scope name n) (interfaceLines scope.bare name n.bare) :=
  (memberLines_related hnodes hmembers).bind fun _ _ hls => .pure
    (((StripsTo.of_not_opens (opens_append _ (by decide))).append hls).append
      (.of_not_opens (by decide)))

theorem extended?_bare (r : Record) (n : Node) :
    extended? r.bare n.bare = (extended? r n).map Node.bare := by
  -- types are found by their names, which stay
  have hfind : r.bare.findType n.info.extends? = (r.findType n.info.extends?).map Node.bare := by
    unfold Record.findType Record.bare
    rw [List.find?_map]
    simp only [Function.comp_def, Node.bare_info, Schema.Info.bare]
  unfold extended?
  rw [Node.isObject_bare, Node.bare_info, show n.info.bare.extends? = n.info.extends? from rfl,
    hfind]
  split
  · cases r.findType n.info.extends? with
    | none => rfl
    | some m => by_cases h : m.isObject = true <;> simp [h, Node.isObject_bare, Option.filter]
  · rfl

/-- **A type is the same lines of code without documentation**, with a name or without. -/
theorem typeLines_related {r : Record} {n : Node}
    (hnodes : ∀ m ∈ n.nodes, IsDescription m.info.description)
    (hmembers : ∀ c ∈ n.members, IsDescription c.description) :
    Related StripsTo (typeLines scope r n) (typeLines scope.bare r.bare n.bare) := by
  have hcomment : Related StripsTo (liftM (nodeComment n "  ")) (liftM (nodeComment n.bare "  ")) :=
    nodeComment_related (hnodes n n.self_mem_nodes) (by decide)
  have hbody : ∀ name, Related StripsTo (interfaceLines scope name n)
      (interfaceLines scope.bare name n.bare) :=
    fun name => interfaceLines_related name hnodes hmembers
  -- whether a type has a name and whether it is an object type is not documentation, so both sides
  -- take the same branch
  unfold typeLines
  rw [Node.bare_info, show n.info.bare.id = n.info.id from rfl]
  split
  · unfold extensionLines
    rw [extended?_bare, Node.bare_info]
    cases extended? r n with
    | none => exact .pure (.of_not_opens (opens_append _ (by decide)))
    | some =>
      exact hcomment.bind fun _ _ hdoc =>
        (hbody _).bind fun _ _ hls => .pure (hdoc.append hls)
  · unfold namedTypeLines
    rw [Node.isObject_bare, Node.bare_info, expression_bare]
    refine hcomment.bind fun _ _ hdoc => ?_
    simp only [Schema.Info.bare]
    split
    · exact (hbody _).bind fun _ _ hls => .pure (hdoc.append hls)
    · exact .same_bind _ fun _ => .pure (hdoc.append (.of_not_opens (opens_append _ (by decide))))

end Declaration

/-! ## The block of a namespace -/

open DocComment (strip)
open Declaration (namespaceLines blockLines)

/-- What a record says about itself and its members are descriptions wherever one is expected. -/
structure Schema.Record.IsDescribed (r : Schema.Record) : Prop where
  record : IsDescription r.description
  nodes : ∀ n ∈ r.nodes, IsDescription n.info.description
  callables : ∀ c ∈ r.callables, IsDescription c.description

namespace Declaration

open DocComment (opens_append)
open Schema (Node Property Callable Record)

theorem typesLines_related {r : Record}
    (hnodes : ∀ n ∈ r.types, ∀ m ∈ n.nodes, IsDescription m.info.description)
    (hmembers : ∀ n ∈ r.types, ∀ c ∈ n.members, IsDescription c.description) :
    Related StripsTo (typesLines scope r) (typesLines scope.bare r.bare) := by
  -- documentation does not decide which types are written
  have hbare : (r.bare.types.filter fun n => !n.info.unsupported) =
      (r.types.filter fun n => !n.info.unsupported).map Node.bare := by
    show (r.types.map Node.bare).filter _ = _
    rw [List.filter_map]
    simp only [Function.comp_def, Node.bare_info, Schema.Info.bare]
  unfold typesLines
  rw [hbare]
  exact collect_related fun n hn =>
    typeLines_related (hnodes n (List.mem_filter.mp hn).1) (hmembers n (List.mem_filter.mp hn).1)

/-- **The block of a record is the same lines of code without documentation.** -/
theorem blockLines_related {r : Record} (h : r.IsDescribed) (t : Table) (root : String) :
    Related StripsTo (blockLines t root r) (blockLines t.bare root r.bare) := by
  obtain ⟨hrecord, hnodes, hcallables⟩ := h
  have htypes : ∀ n ∈ r.types, ∀ m ∈ n.nodes, m ∈ r.nodes := fun n hn m hm => by
    simp [Record.nodes, Node.nodes_subset hn hm]
  have hmembers : ∀ n ∈ r.types, ∀ c ∈ n.members, IsDescription c.description := fun n hn c hc =>
    hcallables c (List.mem_append_right _
      (List.mem_flatMap.mpr ⟨n, htypes n hn n n.self_mem_nodes, hc⟩))
  have hproperties : ∀ p ∈ r.properties, IsDescription p.node.info.description := fun p hp =>
    hnodes _ (by simp [Record.nodes, Property.nodes_subset hp (Node.self_mem_nodes p.node)])
  have hfunctions : ∀ c ∈ r.functions, IsDescription c.description := fun c hc =>
    hcallables c (by simp [Record.callables, hc])
  have hevents : ∀ c ∈ r.events, IsDescription c.description := fun c hc =>
    hcallables c (by simp [Record.callables, hc])
  have hdoc : Related StripsTo (liftM (DocComment.render [r.description] ""))
      (liftM (DocComment.render [r.bare.description] "")) :=
    DocComment.render_related (by simpa using hrecord) (by decide)
  -- part by part, in the order of a block
  exact hdoc.bind fun _ _ hdoc =>
    (typesLines_related (fun n hn m hm => hnodes m (htypes n hn m hm)) hmembers).bind
      fun _ _ htypes =>
    (callables_related (fun _ => functionLines_related .declaration rfl (by decide) (by decide))
      hfunctions).bind fun _ _ hfunctions =>
    (callables_related (fun _ => eventLines_related (by decide)) hevents).bind fun _ _ hevents =>
    (properties_related (fun _ => constantLines_related) hproperties).bind fun _ _ hproperties =>
    .pure (((((((hdoc.append (.of_not_opens (opens_append _ (by decide)))).append htypes).append
      hfunctions).append hevents).append hproperties).append (.of_not_opens (by decide))))

/--
**Documentation never changes code.**

Take a table, and a namespace in whose record a description that is set is a text, whatever it
says. Without its comment blocks the block of this namespace has the lines that it has over the
table without documentation, and both runs raise the same warnings in the same order.
-/
theorem strip_namespaceLines {t : Table} {name : String}
    (h : ∀ r, t.get? name = some r → r.IsDescribed) (root : String) :
    strip <$> namespaceLines t root name = namespaceLines t.bare root name := by
  have hget : t.bare.get? name = (t.get? name).map Record.bare :=
    t.get?_map Record.bare _ name
  cases hr : t.get? name with
  | none =>
    rw [namespaceLines_of_none hr, namespaceLines_of_none (by rw [hget, hr]; rfl)]
    rfl
  | some r =>
    rw [namespaceLines_of_some hr, namespaceLines_of_some (by rw [hget, hr]; rfl)]
    exact (blockLines_related (h r hr) t root).map_eq fun _ _ hls => hls.strip_eq

end Declaration

/-- A table in which descriptions look like the ends of comments, and one list says nothing of
its items. -/
def Table.described : Table where
  records :=
    [{ name := "tabs"
       description := .str "Tabs.\n/**\n*/"
       types := [⟨{ id := .str "Tab", description := .str "*/ const x: any; /**" },
         .object (some [⟨"urls", ⟨{ description := .str "/**", deprecated := .str "*/" },
           .array none⟩⟩]) [] [] none⟩]
       functions := [⟨.str "get", .bool false, .str " */ ",
         [⟨.str "tab", ⟨{ description := .str "*/" }, .reference (.str "Page")⟩⟩], none,
         .bool true, false⟩] }]
  nodup := by decide

theorem Declaration.strip_namespaceLines_described :
    (∀ r, Table.described.get? "tabs" = some r → r.IsDescribed) ∧
      strip <$> namespaceLines Table.described "browser" "tabs" =
        namespaceLines Table.described.bare "browser" "tabs" := by
  have h : ∀ r, Table.described.get? "tabs" = some r → r.IsDescribed := by
    intro r hr
    obtain rfl := Option.some.inj hr
    exact ⟨by decide, by decide, by decide⟩
  exact ⟨h, strip_namespaceLines h "browser"⟩

end Typings
