import Typings.Proofs.TypeSyntax.Choices
import Typings.Proofs.TypeSyntax.Function

/-!
# The text of a type means what the schema says

Every node that a schema can describe compiles to a text, and the text derives from the
grammar with the tree that the node translates to, and with no other tree, provided that all
names in it are names. The induction follows the recursion of `compile` and `translate`,
which go through nodes in the same way.

That there is no other tree is a fact about the grammar, proved where the grammar is. Here it is
enough to show one derivation for every node. A reference is a name with points, and it is one
still if it has to be qualified, provided that the namespaces have names too.
-/

namespace Typings.TypeSyntax

open Schema (Node Shape Parameter Property)

/-! ## References -/

/-- A reference that is a text compiles to its qualified name. -/
theorem qualify_result (scope : Scope) (r : String) :
    (scope.qualify (.str r)).result = .ok (.text (qualifiedName scope (.str r))) := by
  have hqualified : isQualified (.str r) = .ok (Text.mentions "." r) := rfl
  unfold Scope.qualify qualifiedName
  rw [hqualified, Outcome.bind_result (Outcome.lift_result _), Json.display_str]
  cases Text.mentions "." r with
  | true => rfl
  | false =>
    cases scope.table.resolve scope.current (.str r) with
    | none => rfl
    | some m => by_cases hm : m = scope.current <;> simp [hm, Expression.ofName]

/-- The qualified name of a name is a name. -/
theorem isDotted_qualifiedName {scope : Scope} {r : String} (hr : IsDotted r.toList)
    (h : QualifiesWithNames scope (.reference (.str r))) :
    IsDotted (qualifiedName scope (.str r)).toList := by
  unfold qualifiedName
  rw [Json.display_str]
  split
  case isTrue => exact hr
  case isFalse hpoint =>
    split
    · exact hr
    · next m hm =>
      split
      · exact hr
      -- the name of the other namespace is put in front, and it is a name itself
      · next hcurrent =>
        have hm' := (h (by simpa using hpoint) m hm).resolve_left hcurrent
        rw [String.toList_append, String.toList_append, List.append_assoc]
        exact hm'.append hr

/-- **A reference's text is its name.** -/
theorem qualify_yields {scope : Scope} {target : Json} (hname : HasNames (.reference target))
    (hqualifies : QualifiesWithNames scope (.reference target)) :
    Yields (scope.qualify target) (.name (qualifiedName scope target)) := by
  obtain ⟨r, rfl, hr⟩ := hname
  have hdotted := isDotted_qualifiedName hr hqualifies
  exact ⟨_, qualify_result scope r, writes_leaf (reads_word (isWord_of_isDotted hdotted))
    (.name hdotted)⟩

/-! ## Nodes -/

/-- A compiled node and a translated one are the same. -/
structure Agrees (c : Compiled) (t : Translated) : Prop where
  type : Yields c.type t.type
  firstArgument : Option.Rel Yields c.firstArgument t.firstArgument
  flat : t.type.IsFlat

/-- A node that is no function, with a type that is no union. -/
theorem agrees_of_yields {o : Outcome Expression} {t : Tree} (h : Yields o t)
    (hoptions : t.options = [t]) : Agrees { type := o } { type := t } :=
  ⟨h, .none, Tree.isFlat_of_options hoptions⟩

theorem membersTree_flat (members : Option (List String)) : (membersTree members).IsFlat := by
  match members with
  | none => exact Tree.isFlat_of_options rfl
  | some [] => exact Tree.isFlat_of_options rfl
  | some (m :: ms) => exact Tree.isFlat_union (List.cons_ne_nil _ _)

/-- **The members of a text type are a union of literals.** -/
theorem ofMembers_writes (members : Option (List String)) :
    Writes (Expression.ofMembers members) (membersTree members) := by
  match members with
  | none => exact writes_name (by decide)
  | some [] => exact writes_name (by decide)
  | some (m :: ms) =>
    -- a literal is an operand, whatever text it stands for
    have hpairs : List.Forall₂ (fun s t => Writes s t ∧ WritesUnion s t)
        ((m :: ms).map Json.stringLiteral)
        ((m :: ms).map fun s => .leaf (literalToken (.str s))) := by
      rw [List.forall₂_map_left_iff, List.forall₂_map_right_iff]
      refine List.forall₂_same.mpr fun s _ => ⟨writes_literal (.str s), ?_⟩
      exact ⟨_, reads_literal (.str s), .operand (.primary (.leaf (.literal (.str s))))⟩
    refine writes_union hpairs (List.cons_ne_nil _ _) fun t ht => ?_
    obtain ⟨s, -, rfl⟩ := List.mem_map.mp ht
    exact Tree.isFlat_of_options rfl

theorem admits_key (name : String) (optional : Bool) :
    ListKind.members.Admits (.named (keyToken name) optional) := by
  unfold keyToken
  split
  case isTrue h => exact .name (by rwa [String.toList_ofList]) optional
  case isFalse => exact .literal name optional

/-- The first parameters of two lists that go together do. -/
theorem rel_head? {ps : List Input} {qs : List Argument} (h : List.Forall₂ Corresponds ps qs) :
    Option.Rel Yields (ps.head?.map Input.type) (qs.head?.map Argument.type) := by
  cases h with
  | nil => exact .none
  | cons hpq _ => exact .some hpq.type

/-- What all nodes that take part in a type are required to be. -/
def IsWritable (scope : Scope) (s : Shape) : Prop :=
  HasOptions s ∧ HasNames s ∧ QualifiesWithNames scope s

theorem option_result (s : String) :
    (Expression.option (.text s)) = .ok (Expression.parenthesizeText s) := rfl

mutual

/-- **A node's text writes its tree.** -/
theorem compile_agrees (scope : Scope) : (n : Node) → Everywhere (IsWritable scope) n →
    Agrees (compile scope n) (translate scope n)
  | ⟨_, .reference target⟩, h => by
    rw [compile, translate]
    exact agrees_of_yields (qualify_yields h.2.1 h.2.2) rfl
  | ⟨_, .number _⟩, _ => by
    rw [compile, translate]
    exact agrees_of_yields (yields_text (writes_name (by decide))) rfl
  | ⟨_, .string members⟩, _ => by
    rw [compile, translate]
    exact ⟨yields_text (ofMembers_writes members), .none, membersTree_flat members⟩
  | ⟨_, .array none⟩, _ => by
    rw [compile, translate]
    have hunknown : Writes "unknown" (.name "unknown") := writes_name (by decide)
    refine agrees_of_yields ⟨_, Outcome.bind_result rfl _, ?_⟩ rfl
    exact hunknown.array
  | ⟨_, .array (some items)⟩, h => by
    rw [compile, translate]
    obtain ⟨s, hs, hwrites⟩ := (compile_agrees scope items h.2).type
    refine agrees_of_yields ⟨_, ?_, hwrites.array⟩ rfl
    rw [Outcome.bind_result hs]
    exact congrArg Except.ok (Expression.array_text s)
  | ⟨_, .boolean⟩, _ => by
    rw [compile, translate]
    exact agrees_of_yields (yields_text (writes_name (by decide))) rfl
  | ⟨_, .choice options⟩, h => by
    rw [compile, translate]
    obtain ⟨ss, hss, hwrites, hflat⟩ := compileOptions_agrees scope options h.2
    -- a union of nothing would have no text
    have hne : translateOptions scope options ≠ [] := by
      cases options with
      | nil => exact absurd rfl h.1.1
      | cons n ns => rw [translateOptions]; exact List.cons_ne_nil _ _
    refine ⟨⟨_, ?_, writes_distinct hwrites ?_ hflat⟩, .none, Tree.isFlat_union hne⟩
    · rw [Outcome.bind_result hss]
      rfl
    · rintro rfl
      exact hne (List.forall₂_nil_left_iff.mp hwrites)
  | ⟨info, .function parameters returns async⟩, h => by
    rw [compile, translate]
    have hinputs := compileInputs_agrees scope parameters h.1.2.1 h.2.1
    have houtput := compileOutput_yields scope returns h.2.2
    refine ⟨type_yields scope.current (by exact hinputs) (by exact houtput), ?_,
      isFlat_function _⟩
    exact rel_head? hinputs
  | ⟨_, .any⟩, _ => by
    rw [compile, translate]
    exact agrees_of_yields (yields_text (writes_name (by decide))) rfl
  | ⟨_, .object none _ _ none⟩, _ => by
    rw [compile, translate]
    exact agrees_of_yields (yields_text (writes_name (by decide))) rfl
  | ⟨_, .object none _ _ (some additional)⟩, h => by
    rw [compile, translate]
    obtain ⟨s, hs, hwrites⟩ := (compile_agrees scope additional h.2).type
    refine agrees_of_yields ⟨_, ?_, writes_object (.cons (writesEntry_index hwrites) .nil)⟩ rfl
    rw [Outcome.bind_result hs]
    rfl
  | ⟨_, .object (some properties) _ _ additional⟩, h => by
    rw [compile, translate]
    obtain ⟨is, his, hindex⟩ := compileIndex_agrees scope additional h.2.2
    obtain ⟨ms, hms, hmembers⟩ := compileMembers_agrees scope hindex properties h.2.1
    refine agrees_of_yields ⟨_, ?_, writes_object hmembers⟩ rfl
    rw [Outcome.bind_result hms, Outcome.bind_result his]
    rfl
  | ⟨_, .constant value⟩, _ => by
    rw [compile, translate]
    exact agrees_of_yields (yields_text (writes_literal value)) rfl
  | ⟨_, .unknown _⟩, _ => by
    rw [compile, translate]
    exact agrees_of_yields (yields_text (writes_name (by decide))) rfl

theorem compileOptions_agrees (scope : Scope) : (ns : List Node) →
    EverywhereList (IsWritable scope) ns →
    ∃ ss, (compileOptions scope ns).result = .ok ss ∧
      List.Forall₂ (fun s t => Writes s t ∧ WritesUnion s t) ss (translateOptions scope ns) ∧
      ∀ t ∈ translateOptions scope ns, t.IsFlat
  | [], _ => ⟨[], by rw [compileOptions]; rfl, by rw [translateOptions]; exact .nil, by
      rw [translateOptions]; simp⟩
  | n :: ns, h => by
    obtain ⟨⟨s, hs, hwrites⟩, -, hflat⟩ := compile_agrees scope n h.1
    obtain ⟨ss, hss, hrest, hflats⟩ := compileOptions_agrees scope ns h.2
    rw [compileOptions, translateOptions]
    refine ⟨_, ?_, .cons hwrites.parenthesizeText hrest, List.forall_mem_cons.mpr ⟨hflat, hflats⟩⟩
    rw [Outcome.bind_result hs, option_result, Outcome.bind_result (Outcome.lift_result _),
      Outcome.bind_result hss]
    rfl

theorem compileMembers_agrees (scope : Scope) {is : List String} {index : Tree}
    (hindex : WritesFields .members is index) : (ps : List Property) →
    EverywhereProperties (IsWritable scope) ps →
    ∃ ms, (compileMembers scope ps).result = .ok ms ∧
      WritesFields .members (ms ++ is) (translateMembers scope index ps)
  | [], _ => ⟨[], by rw [compileMembers]; rfl, by rw [translateMembers]; exact hindex⟩
  | ⟨name, n⟩ :: ps, h => by
    obtain ⟨ms, hms, hrest⟩ := compileMembers_agrees scope hindex ps h.2
    rw [compileMembers, translateMembers]
    split
    case isTrue =>
      -- a property that is not supported is left out on both sides
      exact ⟨ms, hms, hrest⟩
    case isFalse =>
      obtain ⟨s, hs, hwrites⟩ := (compile_agrees scope n h.1).type
      have hentry := writesEntry_named (admits_key name n.info.optional) (reads_key name) hwrites
      refine ⟨Expression.member name n.info.optional (.text s) :: ms, ?_, .cons hentry hrest⟩
      rw [Outcome.bind_result hs, Outcome.bind_result hms]
      rfl

theorem compileIndex_agrees (scope : Scope) : (o : Option Node) →
    EverywhereOption (IsWritable scope) o →
    ∃ ms, (compileIndex scope o).result = .ok ms ∧
      WritesFields .members ms (translateIndex scope o)
  | none, _ => ⟨[], by rw [compileIndex]; rfl, by rw [translateIndex]; exact .nil⟩
  | some n, h => by
    obtain ⟨s, hs, hwrites⟩ := (compile_agrees scope n h).type
    rw [compileIndex, translateIndex]
    refine ⟨_, ?_, .cons (writesEntry_index hwrites) .nil⟩
    rw [Outcome.bind_result hs]
    rfl

theorem compileInputs_agrees (scope : Scope) : (ps : List Parameter) →
    (∀ p ∈ ps, ∃ s, p.name = .str s ∧ PropertyKey.isIdentifier s.toList = true) →
    EverywhereParameters (IsWritable scope) ps →
    List.Forall₂ Corresponds (compileInputs scope ps) (translateArguments scope ps)
  | [], _, _ => by rw [compileInputs, translateArguments]; exact .nil
  | ⟨name, n⟩ :: ps, hnames, h => by
    obtain ⟨hname, hnames⟩ := List.forall_mem_cons.mp hnames
    obtain ⟨htype, hfirst, -⟩ := compile_agrees scope n h.1
    rw [compileInputs, translateArguments]
    exact .cons ⟨rfl, hname, rfl, htype, hfirst⟩ (compileInputs_agrees scope ps hnames h.2)

theorem compileOutput_yields (scope : Scope) : (o : Option Node) →
    EverywhereOption (IsWritable scope) o →
    Yields (compileOutput scope o) (translateOutput scope o)
  | none, _ => by
    rw [compileOutput, translateOutput]
    exact yields_text (writes_name (by decide))
  | some n, h => by
    rw [compileOutput, translateOutput]
    split
    case isTrue =>
      -- what an array holds that is returned is not looked at
      have hany : Writes "any" (.name "any") := writes_name (by decide)
      exact yields_text hany.array
    case isFalse => exact (compile_agrees scope n h).type

end

/--
**The text of a type means what the schema says under the precedences of the grammar.**

A type that was read from JSON, with names for references and parameters, compiles to a text
whose tokens derive from the grammar with the tree that the type translates to, and with no
other tree. This takes that the namespaces are named like that as well which the references
are qualified with.
-/
theorem expression_derives {v : Json} {n : Node} (hread : Node.ofJson v = .ok n)
    {scope : Scope} (hnames : Everywhere HasNames n)
    (hqualifies : Everywhere (QualifiesWithNames scope) n) :
    ∃ s, (n.expression scope).result = .ok (.text s) ∧
      Derives .type (tokens s) (translate scope n).type ∧
      ∀ t, Derives .type (tokens s) t → t = (translate scope n).type := by
  -- three conditions that hold everywhere in the node hold together everywhere
  have hwritable : Everywhere (IsWritable scope) n :=
    everywhere_and n (ofJson_hasOptions v n hread) (everywhere_and n hnames hqualifies)
  obtain ⟨s, hs, hwrites⟩ := (compile_agrees scope n hwritable).type
  obtain ⟨xs, hxs, hder⟩ := hwrites.derives
  refine ⟨s, hs, ?_, fun t ht => ?_⟩
  · rwa [hxs.tokens_eq]
  · rw [hxs.tokens_eq] at ht
    exact ht.unique hder

/-- A scope inside one of two namespaces. -/
def menuScope : Scope where
  current := "menus"
  table := ⟨[{ name := "tabs", types := [⟨{ id := .str "Tab" }, .any⟩] }, { name := "menus" }],
    List.pairwise_pair.mpr (by decide)⟩

/-- A list of tabs, or of functions that a callback makes asynchronous. -/
def menuJson : Json :=
  .obj [("type", .str "array"), ("items", .obj [("choices", .arr [
    .obj [("$ref", .str "Tab")],
    .obj [("type", .str "function"), ("async", .str "callback"), ("parameters", .arr [
      .obj [("name", .str "delete"), ("type", .str "string"), ("optional", .bool true)],
      .obj [("name", .str "callback"), ("type", .str "function"), ("parameters", .arr [
        .obj [("name", .str "tabs"), ("type", .str "any")]])]])]])])]

/-- What this describes. -/
def menuNode : Node :=
  ⟨{}, .array (some ⟨{}, .choice [
    ⟨{}, .reference (.str "Tab")⟩,
    ⟨{}, .function [
      ⟨.str "delete", ⟨{ optional := true }, .string none⟩⟩,
      ⟨.str "callback", ⟨{}, .function [⟨.str "tabs", ⟨{}, .any⟩⟩] none (.bool false)⟩⟩] none
      (.str "callback")⟩]⟩)⟩

theorem menuNode_hasNames : Everywhere HasNames menuNode := by
  have hparameters : ∀ p ∈ [Parameter.mk (.str "delete") ⟨{ optional := true }, .string none⟩,
      ⟨.str "callback", ⟨{}, .function [⟨.str "tabs", ⟨{}, .any⟩⟩] none (.bool false)⟩⟩],
      ∃ s, p.name = .str s ∧ PropertyKey.isIdentifier s.toList = true :=
    List.forall_mem_cons.mpr
      ⟨⟨_, rfl, by decide⟩, List.forall_mem_singleton.mpr ⟨_, rfl, by decide⟩⟩
  have hcallback : ∀ p ∈ [Parameter.mk (.str "tabs") ⟨{}, .any⟩],
      ∃ s, p.name = .str s ∧ PropertyKey.isIdentifier s.toList = true :=
    List.forall_mem_singleton.mpr ⟨_, rfl, by decide⟩
  exact ⟨trivial, trivial, ⟨"Tab", rfl, .identifier (by decide)⟩,
    ⟨hparameters, ⟨trivial, ⟨hcallback, ⟨trivial, trivial⟩, trivial⟩, trivial⟩, trivial⟩, trivial⟩

theorem menuNode_qualifies : Everywhere (QualifiesWithNames menuScope) menuNode := by
  have hresolve : menuScope.table.resolve menuScope.current (.str "Tab") = some "tabs" := by decide
  have href : QualifiesWithNames menuScope (.reference (.str "Tab")) := by
    intro _ m hm
    rw [hresolve] at hm
    obtain rfl := Option.some.inj hm
    exact Or.inr (.identifier (by decide))
  exact ⟨trivial, trivial, href, ⟨trivial, ⟨trivial, ⟨trivial, ⟨trivial, trivial⟩, trivial⟩,
    trivial⟩, trivial⟩, trivial⟩

theorem expression_derives_menu :
    Node.ofJson menuJson = .ok menuNode ∧ Everywhere HasNames menuNode ∧
      Everywhere (QualifiesWithNames menuScope) menuNode ∧
      ∃ s, (menuNode.expression menuScope).result = .ok (.text s) ∧
        Derives .type (tokens s) (translate menuScope menuNode).type ∧
        ∀ t, Derives .type (tokens s) t → t = (translate menuScope menuNode).type :=
  ⟨rfl, menuNode_hasNames, menuNode_qualifies,
    expression_derives (v := menuJson) rfl menuNode_hasNames menuNode_qualifies⟩

/-- A scope with a namespace that is named like no namespace. -/
def barScope : Scope where
  current := "menus"
  table := ⟨[{ name := "a | b", types := [⟨{ id := .str "T" }, .string none⟩] },
    { name := "menus" }], List.pairwise_pair.mpr (by decide)⟩

/-- An array of a type of that namespace reads as an array of a union. -/
theorem not_expression_derives :
    ¬ ∀ (v : Json) (n : Node) (scope : Scope), Node.ofJson v = .ok n → Everywhere HasNames n →
      ∃ s, (n.expression scope).result = .ok (.text s) ∧
        Derives .type (tokens s) (translate scope n).type := by
  intro h
  obtain ⟨s, hs, hder⟩ := h
    (.obj [("type", .str "array"), ("items", .obj [("$ref", .str "T")])])
    ⟨{}, .array (some ⟨{}, .reference (.str "T")⟩)⟩ barScope rfl
    ⟨trivial, "T", rfl, .identifier (by decide)⟩
  have htext : s = "(a | b.T)[]" := (Expression.text.inj (Except.ok.inj hs)).symm
  have htokens : tokens "(a | b.T)[]" = [.sign '(', .word "a", .sign '|', .word "b.T", .sign ')',
    .sign '[', .sign ']'] := rfl
  rw [htext, htokens] at hder
  -- the same tokens are an array of a union
  have ha : Derives .operand [.word "a"] (.name "a") :=
    .primary (.leaf (.name (.identifier (by decide))))
  have hb : Derives .operand [.word "b.T"] (.name "b.T") :=
    .primary (.leaf (.name (.member (s := ['b']) (by decide) (.identifier (by decide)))))
  have hunion : Derives .type _ (.array ((Tree.name "a").join (.name "b.T"))) :=
    .union (.operand (.array (.primary (.parentheses (.union (.bar ha (.operand hb)))))))
  exact absurd (hder.unique hunion) (by decide)

end Typings.TypeSyntax
