import Typings.Proofs.ElidedCallbacks
import Typings.Proofs.RenderedWarnings
import Typings.Proofs.ReservedNames
import Typings.Proofs.Documentation.ParameterTags

/-!
# Comments and the parameters they describe

The comment of a function has a tag for each parameter that callers see and the schema describes,
in the order of the parameters, as the last overload has them. But the two are written on their
own: the overload puts a mark in front of a name that is a reserved word, and the tag does not. So
the tags describe the parameters by the names that they have in the overload exactly if none of
these names had to be marked; and a tag tells such a name as its first word if the name is one, and
no comment ends in it.

Two things are told apart here: the name that a tag has, which is its first word, and the name in
the last overload (`EndsWithAll`). For a single parameter they are compared by characters
(`tagName_tagOf_declared_iff`). The rest is about where they stand in the lines. No text of
the schema may look like a tag or end the comment (`IsQuiet`), and no overload may look like
the start of a comment (`ne_opening_of_mem`).
-/

namespace Typings

open Schema (Node Parameter Callable Convention Typed)
open DocComment (tagMark tags tagOf tagName)

/-! ## Names and tags -/

/-- A text that is one word, in which no comment ends. -/
def IsWord (s : String) : Prop :=
  (∀ c ∈ s.toList, Text.isBlank c = false) ∧ Text.Endless s.toList

theorem isWord_of_isReserved {s : String} (h : Reserved.isReserved s = true) : IsWord s := by
  have hwords : Reserved.words.all (fun w => w.toList.all fun c => !Text.isBlank c && c ≠ '*') =
      true := by decide
  have hmem : s ∈ Reserved.words := by
    rwa [Reserved.isReserved, List.contains_iff_mem] at h
  have hchars : ∀ c ∈ s.toList, Text.isBlank c = false ∧ c ≠ '*' := by
    intro c hc
    simpa using List.all_eq_true.mp (List.all_eq_true.mp hwords s hmem) c hc
  refine ⟨fun c hc => (hchars c hc).1, Text.endless_of_notMem fun hstar => ?_⟩
  exact (hchars '*' hstar).2 rfl

theorem IsWord.mark {s : String} (h : IsWord s) : IsWord (Reserved.mark ++ s) := by
  have htext : (Reserved.mark ++ s).toList = ['_'] ++ s.toList := String.toList_append
  have hmark : Text.Endless ['_'] := Text.endless_of_notMem (by decide)
  rw [IsWord, htext]
  refine ⟨?_, hmark.append h.2 (Or.inl (by decide))⟩
  intro c hc
  rcases List.mem_append.mp hc with hc | hc
  · rw [List.mem_singleton.mp hc]
    decide
  · exact h.1 c hc

/-- A tag starts with its name if that is a word. -/
theorem tagName_tagOf_eq_iff (name description : String) :
    tagName (tagOf name description) = name ↔ IsWord name := by
  rw [DocComment.tagName_tagOf, ← String.toList_inj, String.toList_ofList]
  exact DocComment.firstWord_sealed_eq_iff

/-- **A tag starts with the name of its parameter in an overload** if that is not reserved, and is
a word. -/
theorem tagName_tagOf_declared_iff (name description : String) :
    tagName (tagOf name description) = Reserved.declared name ↔
      Reserved.isReserved name = false ∧ IsWord name := by
  unfold Reserved.declared
  cases hreserved : Reserved.isReserved name with
  | true =>
    -- the tag has the name without the mark
    have hname := (tagName_tagOf_eq_iff name description).mpr (isWord_of_isReserved hreserved)
    rw [hname, if_pos rfl]
    exact ⟨fun h => absurd h (Reserved.ne_mark_append name), fun h => absurd h.1 (by decide)⟩
  | false =>
    rw [if_neg (by decide), tagName_tagOf_eq_iff]
    exact ⟨fun h => ⟨rfl, h⟩, And.right⟩

/-- The tag of a name is that of the name in an overload only if the name is not reserved. -/
theorem tagOf_declared_iff (name description : String) :
    tagOf name description = tagOf (Reserved.declared name) description ↔
      Reserved.isReserved name = false := by
  unfold Reserved.declared
  cases hreserved : Reserved.isReserved name with
  | true =>
    rw [if_pos rfl]
    refine ⟨fun h => ?_, fun h => absurd h (by decide)⟩
    -- a reserved word is one word, with the mark too, so the tags have different first words
    have hword := isWord_of_isReserved hreserved
    have hnames := congrArg tagName h
    rw [(tagName_tagOf_eq_iff name description).mpr hword,
      (tagName_tagOf_eq_iff _ description).mpr hword.mark] at hnames
    exact absurd hnames (Reserved.ne_mark_append name)
  | false =>
    rw [if_neg (by decide)]
    exact iff_of_true rfl rfl

/-! ## What callers see -/

/-- A text of one line that says nothing like a tag. -/
structure IsQuiet (s : String) : Prop where
  line : '\n' ∉ s.toList
  tag : ¬ tagMark <:+: s.toList

instance (s : String) : Decidable (IsQuiet s) :=
  decidable_of_iff ('\n' ∉ s.toList ∧ Text.occurs tagMark s.toList = false)
    ⟨fun h => ⟨h.1, fun hmark => Bool.false_ne_true (h.2.symm.trans (Text.occurs_iff.mpr hmark))⟩,
      fun h => ⟨h.line, Bool.eq_false_iff.mpr fun hmark => h.tag (Text.occurs_iff.mp hmark)⟩⟩

namespace Schema

/-- What the schema says of a parameter. -/
def Parameter.description (p : Parameter) : Json := p.node.info.description

namespace Callable

variable {scope : Scope} {c : Callable} {style : Signature.Style}

/-- The parameters of a function that callers see. -/
def visible (c : Callable) : List Parameter := Schema.visible c.parameters c.async

/-- Those of them that are described. -/
def described (c : Callable) : List Parameter := c.visible.filter fun p => p.description.isSet

/-- The texts of the schema that the comment of a function is made of are quiet. -/
structure IsQuiet (c : Callable) : Prop where
  description : Typings.IsQuiet c.description.display
  deprecated : Typings.IsQuiet c.deprecated.display
  parameters : ∀ p ∈ c.described,
    Typings.IsQuiet p.name.display ∧ Typings.IsQuiet p.description.display

/-- **Callers see of a signature the parameters that they see of its function.** -/
theorem inputs_callShape {shape : CallShape} {current : String}
    (h : ((c.signature scope).callShape current).result = .ok shape) :
    shape.inputs = c.visible.map (Parameter.input scope) := by
  have hinputs : (c.signature scope).inputs = c.parameters.map (Parameter.input scope) :=
    compileInputs_eq_map scope c.parameters
  have hasync : (c.signature scope).async = c.async := rfl
  rw [Signature.inputs_callShape h, Signature.visibleInputs, hasync, hinputs, visible]
  rcases c.async with (_ | (_ | _) | _ | _ | name) | vs | gs
  case scalar.str =>
    -- compiling keeps names, so the callback is there on both sides or on neither
    have hnamed : ((c.parameters.map (Parameter.input scope)).find? (Input.isNamed name)).isSome =
        true ↔ ∃ p ∈ c.parameters, p.name = .str name := by
      rw [List.find?_isSome]
      simp [Input.isNamed, Parameter.input]
    simp only [Convention.of, Schema.visible, hnamed, List.filter_map]
    split <;> rfl
  all_goals rfl

/-- The lines of a function end with the overload that has all parameters callers see. -/
structure EndsWithAll (scope : Scope) (c : Callable) (style : Signature.Style) (ls : List String) :
    Prop where
  /-- A parameter is written under its own name, or under the marked one if that is reserved. -/
  names : ∀ p ∈ c.visible, (p.input scope).declaredName = .ok (Reserved.declared p.name.display)
  /-- Only the export of a function that had to be renamed stands behind that overload. -/
  last : ∃ front line renamed head returns,
    ls = front ++ [line] ++ Signature.exports style renamed c.name ∧
      Signature.WritesOverload style head returns (c.visible.map (Parameter.input scope)) line

theorem declaredName_input {p : Parameter} (h : ∃ name, p.name = .str name) :
    (p.input scope).declaredName = .ok (Reserved.declared p.name.display) := by
  obtain ⟨name, hname⟩ := h
  have hinput : (p.input scope).name = .str name := hname
  rw [Input.declaredName, hinput, hname, Json.display_str, Reserved.declared]
  cases hreserved : Reserved.isReserved name with
  | true => simp [Reserved.covers, hreserved, bind, Except.bind, pure, Except.pure]
  | false => simp [Reserved.covers, hreserved, bind, Except.bind, pure, Except.pure]

end Callable

end Schema

/-! ## The comment of a signature -/

namespace Signature

variable {style : Style}

/-- The line of an overload is not the first line of a comment: it has a bracket. -/
theorem overloadLine_ne_opening (head : String) (returns : Expression) (arguments : List String) :
    overloadLine style head returns arguments ≠ style.indent ++ "/**" := by
  intro h
  have htext := congrArg String.toList h
  rw [overloadLine, String.append_assoc, String.toList_append, String.toList_append,
    String.toList_append] at htext
  have hrest := List.append_cancel_left htext
  have hmem : '(' ∈ "/**".toList := by
    rw [← hrest]
    split <;> simp [String.toList_append]
  exact absurd hmem (by decide)

/-- No overload starts a comment. -/
theorem ne_opening_of_mem {head : String} {returns : Expression} {pss : List (List Input)}
    {overloads : List String}
    (h : List.Forall₂ (WritesOverload style head returns) pss overloads) :
    ∀ l ∈ overloads, l ≠ style.indent ++ "/**" := by
  induction h with
  | nil => exact fun l hl => absurd hl List.not_mem_nil
  | cons hline _ ih =>
    obtain ⟨texts, -, rfl⟩ := hline
    exact List.forall_mem_cons.mpr ⟨overloadLine_ne_opening head returns texts, ih⟩

/-- The last overload is the one with all parameters that callers see. -/
theorem exists_last_overload {head : String} {shape : CallShape} {overloads : List String}
    (h : List.Forall₂ (WritesOverload style head shape.returns) shape.overloads overloads) :
    ∃ front line, overloads = front ++ [line] ∧
      WritesOverload style head shape.returns shape.inputs line := by
  unfold CallShape.overloads Overload.lists at h
  rw [← List.forall₂_reverse_iff, List.reverse_concat, List.forall₂_cons_left_iff] at h
  obtain ⟨line, front, hline, -, hreverse⟩ := h
  refine ⟨front.reverse, line, ?_, hline⟩
  rw [← List.reverse_reverse overloads, hreverse, List.reverse_cons]

end Signature

namespace Schema.Callable

variable {scope : Scope} {c : Callable} {style : Signature.Style}

/-- What is said about a deprecation is quiet if what the schema says about it is. -/
theorem isQuiet_deprecation {deprecated p : Json} (h : Typings.IsQuiet deprecated.display)
    (hp : p ∈ DocComment.deprecation deprecated) : Typings.IsQuiet p.display := by
  unfold DocComment.deprecation at hp
  split at hp
  case h_1 => cases hp
  case h_2 s =>
    obtain rfl := List.mem_singleton.mp hp
    have htext : ("@deprecated " ++ s).toList = "@deprecated ".toList ++ s.toList :=
      String.toList_append
    rw [Json.display_str] at h ⊢
    constructor
    · simpa [htext] using h.line
    · -- the mark does not start with the tag of a deprecation, nor inside of it
      intro hmark
      refine h.tag ?_
      rw [htext] at hmark
      simpa [tagMark, List.infix_cons_iff] using hmark
  case h_3 =>
    obtain rfl := List.mem_singleton.mp hp
    decide

/-- The tags of the paragraphs about a function are those of its parameters. -/
theorem filterMap_paragraphTag? (h : c.IsQuiet) {shape : CallShape}
    (hshape : shape.inputs = c.visible.map (Parameter.input scope)) (indent : String) :
    ((c.signature scope).paragraphs shape).filterMap (DocComment.paragraphTag? indent) =
      c.described.map fun p => tagOf p.name.display p.description.display := by
  have hdescription : DocComment.paragraphTag? indent (c.signature scope).description = none :=
    DocComment.paragraphTag?_of_not_infix h.description.tag
  have hdeprecation : (DocComment.deprecation (c.signature scope).deprecated).filterMap
      (DocComment.paragraphTag? indent) = [] :=
    List.filterMap_eq_nil_iff.mpr fun p hp =>
      DocComment.paragraphTag?_of_not_infix (isQuiet_deprecation h.deprecated hp).tag
  have hparameters : (Input.paragraphs shape.inputs).filterMap (DocComment.paragraphTag? indent) =
      c.described.map fun p => tagOf p.name.display p.description.display := by
    rw [Input.paragraphs, hshape, List.filter_map, List.map_map, List.filterMap_map,
      ← List.filterMap_eq_map]
    exact List.filterMap_congr fun p _ => DocComment.paragraphTag?_param _ _
  -- description, parameters, deprecation: only those in the middle have tags
  rw [Signature.paragraphs, List.filterMap_append, List.filterMap_cons, hdescription, hparameters,
    hdeprecation, List.append_nil]

theorem newline_notMem_paragraphs (h : c.IsQuiet) {shape : CallShape}
    (hshape : shape.inputs = c.visible.map (Parameter.input scope)) :
    ∀ p ∈ (c.signature scope).paragraphs shape, '\n' ∉ p.display.toList := by
  intro p hp
  -- description, parameters, deprecation
  rcases List.mem_append.mp hp with hp | hp
  · rcases List.mem_cons.mp hp with rfl | hp
    · exact h.description.line
    · rw [Input.paragraphs, hshape, List.filter_map, List.map_map] at hp
      obtain ⟨q, hq, rfl⟩ := List.mem_map.mp hp
      obtain ⟨hname, hdescription⟩ := h.parameters q hq
      show '\n' ∉ ("@param " ++ q.name.display ++ " " ++ q.description.display).toList
      simp [String.toList_append, hname.line, hdescription.line]
  · exact (isQuiet_deprecation h.deprecated hp).line

/-- **The comment of a function has the tags of its parameters**, and the last overload has all
that callers see. -/
theorem tags_lines (hstyle : style.description = true)
    (hnames : ∀ p ∈ c.visible, ∃ name, p.name = .str name) (hquiet : c.IsQuiet) {ls : List String}
    (h : ((c.signature scope).lines style scope.current).result = .ok ls) :
    tags style.indent ls =
        c.described.map (fun p => tagOf p.name.display p.description.display) ∧
      c.EndsWithAll scope style ls := by
  obtain ⟨shape, hshape, doc, overloads, hcomment, renamed, head, -, -, hoverloads, rfl⟩ :=
    Signature.lines_eq_ok.mp h
  have hinputs := inputs_callShape hshape
  obtain ⟨front, line, rfl, hline⟩ := Signature.exists_last_overload hoverloads
  rw [hinputs] at hline
  constructor
  · rw [Signature.comment, if_pos hstyle, DocComment.render] at hcomment
    obtain ⟨body, hbody, rfl⟩ := Fault.map_eq_ok.mp hcomment
    -- what stands behind the block does not open another one, so these are all its tags
    have hrest : ∀ l ∈ (front ++ [line] ++
        Signature.exports style renamed (c.signature scope).name).head?,
        l ≠ style.indent ++ "/**" := by
      intro l hl
      rw [List.head?_append_of_ne_nil _ (List.concat_ne_nil line front)] at hl
      exact Signature.ne_opening_of_mem hoverloads l (List.mem_of_mem_head? hl)
    rw [List.append_assoc, DocComment.tags_block_append hbody
      (newline_notMem_paragraphs hquiet hinputs) hrest, filterMap_paragraphTag? hquiet hinputs]
  · refine ⟨fun p hp => declaredName_input (hnames p hp), doc ++ front, line, renamed, head,
      shape.returns, ?_, hline⟩
    simp only [List.append_assoc]
    rfl

/--
**The comment of a function describes the parameters of its last overload, reserved names apart.**

If what the schema says about a function is quiet, the lines of the function have one tag for each
parameter that callers see and the schema describes, in their order, and end with the overload that
has all that callers see. The tags are written for the names in that overload exactly if none of
the names described is a reserved word; and their first words are these names exactly if, besides,
each of them is a word in which no comment ends. The lines are there if the schema is well typed.
-/
theorem tags_describe_iff {scope : Scope} {c : Callable} {style : Signature.Style}
    (hstyle : style.description = true)
    (hnames : ∀ p ∈ c.visible, ∃ name, p.name = .str name) (hquiet : c.IsQuiet) :
    (∀ ls, ((c.signature scope).lines style scope.current).result = .ok ls →
      tags style.indent ls =
          c.described.map (fun p => tagOf p.name.display p.description.display) ∧
        c.EndsWithAll scope style ls ∧
        (tags style.indent ls = c.described.map (fun p =>
            tagOf (Reserved.declared p.name.display) p.description.display) ↔
          ∀ p ∈ c.described, Reserved.isReserved p.name.display = false) ∧
        ((tags style.indent ls).map tagName =
            c.described.map (fun p => Reserved.declared p.name.display) ↔
          ∀ p ∈ c.described,
            Reserved.isReserved p.name.display = false ∧ IsWord p.name.display)) ∧
      (c.name.isText = true → DocComment.IsDescription c.description → c.isTyped = true →
        Typed c.nodes → ∃ ls, ((c.signature scope).lines style scope.current).result = .ok ls) := by
  constructor
  · intro ls h
    obtain ⟨htags, hlast⟩ := tags_lines hstyle hnames hquiet h
    -- both equivalences hold parameter by parameter
    refine ⟨htags, hlast, ?_, ?_⟩
    · rw [htags, List.map_inj_left]
      exact forall₂_congr fun p _ => tagOf_declared_iff _ _
    · rw [htags, List.map_map, List.map_inj_left]
      exact forall₂_congr fun p _ => tagName_tagOf_declared_iff _ _
  · intro hname hdescription hc h
    exact (exists_lines hname hdescription hc h).1 style

/-- A function that hands its result over to `done`, with a parameter that may be left out in front
of one that is named by a reserved word. -/
def sendFunction : Callable where
  name := .str "send"
  async := .str "done"
  description := .str "Sends a message."
  parameters := [
    ⟨.str "to", ⟨{ optional := true, description := .str "Who gets it." }, .string none⟩⟩,
    ⟨.str "default", ⟨{ description := .str "The text." }, .string none⟩⟩,
    ⟨.str "done", ⟨{ description := .str "Is called." }, .function [] none (.bool false)⟩⟩]
  returns := none
  deprecated := .bool false
  unsupported := false

/-- The lines that declare it. -/
def sendLines : List String :=
  ["  /**", "   * Sends a message.", "   * @param to Who gets it.", "   * @param default The text.",
    "   */", "  function send(_default: string): Promise<any>;",
    "  function send(to: string, _default: string): Promise<any>;"]

theorem visible_sendFunction : sendFunction.visible = sendFunction.parameters.take 2 := by
  cbv

theorem described_sendFunction : sendFunction.described = sendFunction.parameters.take 2 := by
  cbv

theorem isQuiet_sendFunction : sendFunction.IsQuiet := by
  refine ⟨by decide, by decide, ?_⟩
  rw [described_sendFunction]
  decide

theorem names_sendFunction : ∀ p ∈ sendFunction.parameters, ∃ name, p.name = .str name := by
  intro p hp
  simp only [sendFunction, List.mem_cons, List.not_mem_nil, or_false] at hp
  rcases hp with rfl | rfl | rfl <;> exact ⟨_, rfl⟩

theorem lines_sendFunction :
    ((sendFunction.signature ⟨"mail", .empty⟩).lines .declaration "mail").result =
      .ok sendLines := by
  cbv

theorem tags_describe_iff_send :
    (∀ p ∈ sendFunction.visible, ∃ name, p.name = .str name) ∧ sendFunction.IsQuiet ∧
      ((sendFunction.signature ⟨"mail", .empty⟩).lines .declaration "mail").result =
        .ok sendLines ∧
      sendFunction.EndsWithAll ⟨"mail", .empty⟩ .declaration sendLines ∧
      tags "  " sendLines = [tagOf "to" "Who gets it.", tagOf "default" "The text."] := by
  have hnames : ∀ p ∈ sendFunction.visible, ∃ name, p.name = .str name := by
    rw [visible_sendFunction]
    exact fun p hp => names_sendFunction p (List.mem_of_mem_take hp)
  obtain ⟨htags, hlast, -⟩ :=
    (tags_describe_iff rfl hnames isQuiet_sendFunction).1 sendLines lines_sendFunction
  rw [described_sendFunction] at htags
  exact ⟨hnames, isQuiet_sendFunction, lines_sendFunction, hlast, htags⟩

/-- The tag of a parameter that is named by a reserved word does not have the name of the last
overload. -/
theorem tags_describe_default :
    ¬ ∀ (scope : Scope) (c : Callable) (style : Signature.Style) (ls : List String),
      style.description = true → (∀ p ∈ c.parameters, ∃ name, p.name = .str name) → c.IsQuiet →
      ((c.signature scope).lines style scope.current).result = .ok ls →
      (tags style.indent ls).map tagName =
        c.described.map fun p => Reserved.declared p.name.display := by
  intro h
  have hsame := h ⟨"mail", .empty⟩ sendFunction .declaration sendLines rfl names_sendFunction
    isQuiet_sendFunction lines_sendFunction
  -- the tag says what the schema says, and the overload what can be declared
  have htags : (tags "  " sendLines).map tagName = ["to", "default"] := by cbv
  have hnames : (sendFunction.parameters.take 2).map
      (fun p => Reserved.declared p.name.display) = ["to", "_default"] := by cbv
  rw [described_sendFunction, hnames] at hsame
  exact absurd (htags.symm.trans hsame) (by decide)

end Schema.Callable

end Typings
