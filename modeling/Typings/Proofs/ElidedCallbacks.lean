import Typings.Proofs.Documentation.Bare
import Typings.Proofs.Overloads
import Typings.Proofs.Parameters
import Typings.Proofs.TypeSyntax.Rendering

/-!
# Callbacks that become promises

A function may hand over its result through a callback: `async` is the name of the parameter that
receives it. Such a function is declared as one that returns a promise. The callback is the first
parameter of that name, and what its own first parameter takes is what the promise resolves to.
But callers see none of the parameters of that name: they are in no overload, and the comment does
not describe them.

`Elides` collects what follows for the writing of such a function. It is derived once, from the
shape that a call has after the callback is taken out, and both the lines of a declared function
and the type of a listener are read off it.
-/

namespace Typings

open Schema (Node Shape Parameter Callable Convention Typed)

/-- Is the node a function type? -/
def Schema.Node.isFunction (n : Node) : Bool :=
  match n.shape with
  | .function _ _ _ => true
  | _ => false

/-! ## What the promise resolves to -/

/-- What the promise resolves to if this parameter receives the result: anything, if nothing is
known of the result, and otherwise a value of its type. A callback that may be left out may also be
called without a result. -/
inductive Resolves (scope : Scope) (callback : Parameter) : String → Prop
  | any (hnested : callback.nested = []) : Resolves scope callback "any"
  | value {q : Parameter} {rest : List Parameter} {e : Expression}
      (hnested : callback.nested = q :: rest) (hrequired : callback.optional = false)
      (he : (q.node.expression scope).result = .ok e) : Resolves scope callback e.toText
  | optional {q : Parameter} {rest : List Parameter} {e e' : Expression}
      (hnested : callback.nested = q :: rest) (hoptional : callback.optional = true)
      (he : (q.node.expression scope).result = .ok e) (he' : e.parenthesize = .ok e') :
      Resolves scope callback (e'.toText ++ " | undefined")

namespace Resolves

variable {scope : Scope} {callback q : Parameter} {rest : List Parameter} {value : String}

theorem iff_of_nil (hnested : callback.nested = []) :
    Resolves scope callback value ↔ value = "any" := by
  constructor
  · intro h
    cases h with
    | any _ => rfl
    | value hnested' _ _ => cases hnested.symm.trans hnested'
    | optional hnested' _ _ _ => cases hnested.symm.trans hnested'
  · rintro rfl
    exact .any hnested

theorem iff_of_required (hnested : callback.nested = q :: rest)
    (hrequired : callback.optional = false) : Resolves scope callback value ↔
      ∃ e, (q.node.expression scope).result = .ok e ∧ value = e.toText := by
  constructor
  · intro h
    -- the other two ways to resolve need a callback without parameters, or an optional one
    cases h with
    | any hnested' => cases hnested.symm.trans hnested'
    | value hnested' _ he =>
      cases hnested.symm.trans hnested'
      exact ⟨_, he, rfl⟩
    | optional _ hoptional _ _ => cases hrequired.symm.trans hoptional
  · rintro ⟨e, he, rfl⟩
    exact .value hnested hrequired he

theorem iff_of_optional (hnested : callback.nested = q :: rest)
    (hoptional : callback.optional = true) : Resolves scope callback value ↔
      ∃ e, (q.node.expression scope).result = .ok e ∧
        ∃ e', e.parenthesize = .ok e' ∧ value = e'.toText ++ " | undefined" := by
  constructor
  · intro h
    cases h with
    | any hnested' => cases hnested.symm.trans hnested'
    | value _ hrequired _ => cases hoptional.symm.trans hrequired
    | optional hnested' _ he he' =>
      cases hnested.symm.trans hnested'
      exact ⟨_, he, _, he', rfl⟩
  · rintro ⟨e, he, e', he', rfl⟩
    exact .optional hnested hoptional he he'

end Resolves

/-- **The promise resolves to what the schema says of the callback.** -/
theorem resolvedType_eq_ok {scope : Scope} {callback : Parameter} {value : String} :
    (Signature.resolvedType (callback.input scope)).result = .ok value ↔
      Resolves scope callback value := by
  have hoptional : (callback.input scope).optional = callback.optional := rfl
  have hfirst : (callback.input scope).firstArgument =
      callback.nested.head?.map fun q => q.node.expression scope := rfl
  unfold Signature.resolvedType
  rw [hfirst]
  -- without a parameter the promise is void, and with one its type may be widened
  cases hnested : callback.nested with
  | nil =>
    rw [List.head?_nil, Option.map_none, Outcome.pure_result_eq_ok, Resolves.iff_of_nil hnested]
    exact eq_comm
  | cons q rest =>
    rw [List.head?_cons, Option.map_some]
    simp only [Outcome.bind_result_eq_ok, hoptional]
    cases hopt : callback.optional with
    | false =>
      rw [Resolves.iff_of_required hnested hopt]
      simp only [Bool.false_eq_true, if_false, Outcome.pure_result_eq_ok]
      exact exists_congr fun e => and_congr_right fun _ => eq_comm
    | true =>
      rw [Resolves.iff_of_optional hnested hopt]
      simp only [if_true, Outcome.bind_result_eq_ok, Outcome.lift_result,
        Outcome.pure_result_eq_ok]
      exact exists_congr fun e => and_congr_right fun _ =>
        exists_congr fun e' => and_congr_right fun _ => eq_comm

/-! ## A function type gets parentheses before a bar -/

/-- A text that starts like the parameters of a function type, and has an arrow in it. -/
def LooksLikeFunction (s : String) : Prop :=
  (∃ rest, s = "(" ++ rest) ∧ Text.mentions "=>" s = true

theorem LooksLikeFunction.parenthesizeText {s : String} (h : LooksLikeFunction s) :
    Expression.parenthesizeText s = "(" ++ s ++ ")" := by
  obtain ⟨⟨rest, hs⟩, harrow⟩ := h
  have hbrace : ['\x7b'].isPrefixOf s.toList = false := by
    rw [hs, String.toList_append]
    rfl
  rw [Expression.parenthesizeText, harrow, hbrace]
  rfl

namespace Signature

theorem looksLikeFunction_overload {returns : Expression} {ps : List Input} {line : String}
    (h : WritesOverload Style.inline "" returns ps line) : LooksLikeFunction line := by
  obtain ⟨texts, -, rfl⟩ := h
  have hline : overloadLine Style.inline "" returns texts =
      "(" ++ (", ".intercalate texts ++ ") => " ++ returns.toText) := by
    simp [overloadLine, Style.inline, String.append_assoc]
  refine ⟨⟨_, hline⟩, ?_⟩
  refine TypeSyntax.mentions_append ("(" ++ ", ".intercalate texts ++ ") ")
    (" " ++ returns.toText) ?_
  rw [hline]
  simp only [String.append_assoc]
  rfl

theorem looksLikeFunction_overloads {returns : Expression} {pss : List (List Input)}
    {ls : List String} (h : List.Forall₂ (WritesOverload Style.inline "" returns) pss ls) :
    ∀ l ∈ ls, LooksLikeFunction l := by
  induction h with
  | nil => exact fun _ hl => absurd hl List.not_mem_nil
  | cons hline _ ih => exact List.forall_mem_cons.mpr ⟨looksLikeFunction_overload hline, ih⟩

/-- Overloads as one type look like a function, too. -/
theorem looksLikeFunction_union {ls : List String} (hne : ls ≠ [])
    (h : ∀ l ∈ ls, LooksLikeFunction l) : LooksLikeFunction (union ls) := by
  obtain ⟨l, rest, rfl⟩ := List.exists_cons_of_ne_nil hne
  have hl := h l List.mem_cons_self
  cases rest with
  | nil => exact hl
  | cons l' rest =>
    have hunion : union (l :: l' :: rest) = "(" ++ (l ++ (")" ++ (" | " ++
        " | ".intercalate ((l' :: rest).map fun s => "(" ++ s ++ ")")))) := by
      show " | ".intercalate ((l :: l' :: rest).map fun s => "(" ++ s ++ ")") = _
      rw [List.map_cons, List.map_cons, String.intercalate_cons_cons]
      simp only [String.append_assoc]
    refine ⟨⟨_, hunion⟩, ?_⟩
    -- the arrow of the first overload is still there
    have harrow := Text.occurs_iff.mp hl.2
    rw [hunion, Text.mentions, String.toList_append, String.toList_append]
    exact Text.occurs_iff.mpr (harrow.trans (List.infix_append' _ _ _))

/-- **The lines of a function type are its overloads**, and nothing else. -/
theorem inline_lines_eq_ok {current : String} {s : Signature} {ls : List String} :
    (s.lines Style.inline current).result = .ok ls ↔
      ∃ shape, (s.callShape current).result = .ok shape ∧
        List.Forall₂ (WritesOverload Style.inline "" shape.returns) shape.overloads ls := by
  rw [lines_eq_ok]
  constructor
  · rintro ⟨shape, hshape, doc, overloads, hmade⟩
    obtain rfl : doc = [] := (Except.ok.inj hmade.comment).symm
    -- the style has no comment, no name and so no export
    obtain ⟨renamed, head, hrenamed, hhead, heach, rfl⟩ := hmade.overloads
    obtain rfl : renamed = false := (Except.ok.inj hrenamed).symm
    obtain rfl : head = "" := (Except.ok.inj hhead).symm
    refine ⟨shape, hshape, ?_⟩
    rwa [exports, if_neg Bool.false_ne_true, List.nil_append, List.append_nil]
  · rintro ⟨shape, hshape, heach⟩
    refine ⟨shape, hshape, [], ls, rfl, false, "", rfl, rfl, heach, ?_⟩
    rw [exports, if_neg Bool.false_ne_true, List.nil_append, List.append_nil]

theorem type_eq_ok {current : String} {s : Signature} {t : String} :
    (s.type current).result = .ok t ↔
      ∃ shape ls, (s.callShape current).result = .ok shape ∧
        List.Forall₂ (WritesOverload Style.inline "" shape.returns) shape.overloads ls ∧
        t = union ls := by
  rw [type, map_eq_pure_bind, Outcome.bind_result_eq_ok]
  constructor
  · rintro ⟨ls, hls, ht⟩
    obtain ⟨shape, hshape, heach⟩ := inline_lines_eq_ok.mp hls
    exact ⟨shape, ls, hshape, heach, (Except.ok.inj ht).symm⟩
  · rintro ⟨shape, ls, hshape, heach, rfl⟩
    exact ⟨ls, inline_lines_eq_ok.mpr ⟨shape, hshape, heach⟩, rfl⟩

end Signature

/-- A function type as a function without a name. -/
def Schema.Callable.anonymous (i : Schema.Info) (parameters : List Parameter)
    (returns : Option Node) (async : Json) : Callable where
  name := .str ""
  async := async
  description := i.description
  parameters := parameters
  returns := returns
  deprecated := i.deprecated
  unsupported := i.unsupported

/-- A function type is written as the type of those who listen to an event of its kind. So what
holds of functions holds of function types, at whatever depth. -/
theorem expression_function (scope : Scope) (i : Schema.Info) (parameters : List Parameter)
    (returns : Option Node) (async : Json) :
    Node.expression scope ⟨i, .function parameters returns async⟩ =
      Expression.text <$> (Callable.anonymous i parameters returns async).listenerType scope := by
  rw [Node.expression, compile]
  rfl

/-- **The text of a function type looks like a function.** -/
theorem looksLikeFunction_expression {scope : Scope} {n : Node} (hfunction : n.isFunction = true)
    {e : Expression} (he : (n.expression scope).result = .ok e) :
    ∃ t, e = .text t ∧ LooksLikeFunction t := by
  obtain ⟨info, shape⟩ := n
  cases shape with
  | function parameters returns async =>
    rw [expression_function, map_eq_pure_bind, Outcome.bind_result_eq_ok] at he
    obtain ⟨t, ht, he⟩ := he
    obtain ⟨shape, ls, -, heach, rfl⟩ := Signature.type_eq_ok.mp ht
    refine ⟨Signature.union ls, (Except.ok.inj he).symm, Signature.looksLikeFunction_union ?_ ?_⟩
    · -- there is at least one overload
      rintro rfl
      exact Overload.lists_ne_nil _ _ (List.forall₂_nil_right_iff.mp heach)
    · exact Signature.looksLikeFunction_overloads heach
  | _ => cases hfunction

/-- A function type that a callback hands over stands between parentheses if the callback may be
left out. -/
theorem Resolves.eq_of_isFunction {scope : Scope} {callback q : Parameter} {rest : List Parameter}
    {value : String} (h : Resolves scope callback value) (hnested : callback.nested = q :: rest)
    (hoptional : callback.optional = true) (hfunction : q.node.isFunction = true) :
    ∃ t, (q.node.expression scope).result = .ok (.text t) ∧
      value = "(" ++ t ++ ")" ++ " | undefined" := by
  obtain ⟨e, he, e', he', rfl⟩ := (Resolves.iff_of_optional hnested hoptional).mp h
  obtain ⟨t, rfl, ht⟩ := looksLikeFunction_expression hfunction he
  refine ⟨t, he, ?_⟩
  rw [← Except.ok.inj he', Expression.toText_text, ht.parenthesizeText]

/-! ## What callers see -/

namespace Schema.Callable

/-- The parameters of a function that are not called `name`. -/
def others (name : String) (c : Callable) : List Parameter :=
  c.parameters.filter fun p => !(p.name == .str name)

/-- The overloads that these parameters ask for. -/
def overloads (name : String) (c : Callable) : List (List Parameter) :=
  Overload.lists Parameter.optional (c.others name)

/-- The paragraphs of the comment: what the function is for, what these parameters are for, and
whether it is deprecated. -/
def paragraphs (name : String) (c : Callable) : List Json :=
  c.description ::
    ((c.others name).filter fun p => p.node.info.description.isSet).map
      (fun p => .str ("@param " ++ p.name.display ++ " " ++ p.node.info.description.display)) ++
    DocComment.deprecation c.deprecated

variable {name : String} {c : Callable}

theorem ne_of_mem_others {p : Parameter} (h : p ∈ c.others name) : p.name ≠ .str name := by
  have hnot := (List.mem_filter.mp h).2
  simpa using hnot

theorem callShape_eq_ok {scope : Scope} {current : String} (hasync : c.async = .str name)
    {callback : Parameter} (hfirst : Parameter.IsFirst name c.parameters callback)
    {shape : CallShape} :
    ((c.signature scope).callShape current).result = .ok shape ↔
      ∃ value, Resolves scope callback value ∧
        shape = ⟨Signature.promise value, (c.others name).map (Parameter.input scope)⟩ := by
  have hinputs : (c.signature scope).inputs = c.parameters.map (Parameter.input scope) :=
    compileInputs_eq_map scope c.parameters
  have hfind' : (c.signature scope).inputs.find? (Input.isNamed name) =
      some (callback.input scope) := by
    rw [hinputs, List.find?_map]
    exact congrArg (Option.map _) (Parameter.isFirst_iff.mp hfirst)
  -- all parameters of the name go, not only the first
  have hothers : ((c.signature scope).inputs.filter fun p => !p.isNamed name) =
      (c.others name).map (Parameter.input scope) := by
    rw [hinputs, List.filter_map]
    rfl
  have hconvention : Convention.of (c.signature scope).async = .callback name := by
    show Convention.of c.async = _
    rw [hasync]
    rfl
  unfold Signature.callShape
  rw [hconvention]
  dsimp only
  rw [hfind', hothers]
  simp only [Outcome.bind_result_eq_ok, resolvedType_eq_ok, Outcome.pure_result_eq_ok]
  exact exists_congr fun value => and_congr_right fun _ => eq_comm

theorem overloads_map_input (scope : Scope) (returns : Expression) :
    CallShape.overloads ⟨returns, (c.others name).map (Parameter.input scope)⟩ =
      (c.overloads name).map (List.map (Parameter.input scope)) :=
  Overload.lists_map (Parameter.input scope) Input.optional (c.others name)

theorem paragraphs_signature (scope : Scope) (returns : Expression) :
    (c.signature scope).paragraphs ⟨returns, (c.others name).map (Parameter.input scope)⟩ =
      c.paragraphs name := by
  unfold Signature.paragraphs Input.paragraphs paragraphs
  rw [List.filter_map, List.map_map]
  rfl

/-- The lines of a function that returns a promise of this value, and whose parameters are those
that are not called `name`: its comment, a line for each of the overloads, and the export of a
function that had to be renamed. -/
structure Promises (scope : Scope) (name value : String) (c : Callable) (style : Signature.Style)
    (doc overloads ls : List String) : Prop where
  comment : (if style.description then DocComment.render (c.paragraphs name) style.indent
    else .ok []) = .ok doc
  overloads : ∃ renamed head, Signature.isRenamed style c.name = .ok renamed ∧
    Signature.head style (Signature.declaredName renamed c.name) = .ok head ∧
    List.Forall₂
      (fun ps line => Signature.WritesOverload style head (Signature.promise value)
        (ps.map (Parameter.input scope)) line) (c.overloads name) overloads ∧
    ls = doc ++ overloads ++ Signature.exports style renamed c.name

theorem madeOf_iff_promises {scope : Scope} {value : String} {style : Signature.Style}
    {doc overloads ls : List String} :
    (c.signature scope).MadeOf style
        ⟨Signature.promise value, (c.others name).map (Parameter.input scope)⟩ ls doc overloads ↔
      c.Promises scope name value style doc overloads ls := by
  -- the comment and the lists of the shape are those of the other parameters
  have hcomment : (c.signature scope).comment style
      ⟨Signature.promise value, (c.others name).map (Parameter.input scope)⟩ =
        if style.description then DocComment.render (c.paragraphs name) style.indent
        else .ok [] := by
    rw [Signature.comment, paragraphs_signature]
  constructor
  · rintro ⟨hdoc, renamed, head, hrenamed, hhead, heach, hls⟩
    rw [overloads_map_input, List.forall₂_map_left_iff] at heach
    exact ⟨hcomment ▸ hdoc, renamed, head, hrenamed, hhead, heach, hls⟩
  · rintro ⟨hdoc, renamed, head, hrenamed, hhead, heach, hls⟩
    refine ⟨hcomment.trans hdoc, renamed, head, hrenamed, hhead, ?_, hls⟩
    rwa [overloads_map_input, List.forall₂_map_left_iff]

/-- The parameters called `name` are elided, and the first of them receives the result. -/
structure Elides (scope : Scope) (name : String) (c : Callable) (callback : Parameter) : Prop where
  first : Parameter.IsFirst name c.parameters callback
  absent : ∀ ps ∈ c.overloads name, ∀ p ∈ ps, p.name ≠ .str name
  last : (c.overloads name).getLast? = some (c.others name)
  required : ∀ ps ∈ c.overloads name,
    (ps.filter fun p => !p.optional) = (c.others name).filter fun p => !p.optional
  lines : ∀ style ls, ((c.signature scope).lines style scope.current).result = .ok ls ↔
    ∃ value doc overloads, Resolves scope callback value ∧
      c.Promises scope name value style doc overloads ls
  listener : ∀ t, (c.listenerType scope).result = .ok t ↔
    ∃ value ls, Resolves scope callback value ∧
      List.Forall₂
        (fun ps line => Signature.WritesOverload Signature.Style.inline ""
          (Signature.promise value) (ps.map (Parameter.input scope)) line) (c.overloads name) ls ∧
      t = Signature.union ls
  arrow : ∀ q rest value, callback.nested = q :: rest → callback.optional = true →
    q.node.isFunction = true → Resolves scope callback value →
      ∃ t, (q.node.expression scope).result = .ok (.text t) ∧
        value = "(" ++ t ++ ")" ++ " | undefined"

theorem lines_eq_ok {scope : Scope} (hasync : c.async = .str name) {callback : Parameter}
    (hfirst : Parameter.IsFirst name c.parameters callback) (style : Signature.Style)
    (ls : List String) :
    ((c.signature scope).lines style scope.current).result = .ok ls ↔
      ∃ value doc overloads, Resolves scope callback value ∧
        c.Promises scope name value style doc overloads ls := by
  rw [Signature.lines_eq_ok]
  constructor
  · rintro ⟨shape, hshape, doc, overloads, hmade⟩
    obtain ⟨value, hvalue, rfl⟩ := (callShape_eq_ok hasync hfirst).mp hshape
    exact ⟨value, doc, overloads, hvalue, madeOf_iff_promises.mp hmade⟩
  · rintro ⟨value, doc, overloads, hvalue, hpromises⟩
    exact ⟨_, (callShape_eq_ok hasync hfirst).mpr ⟨value, hvalue, rfl⟩, doc, overloads,
      madeOf_iff_promises.mpr hpromises⟩

theorem listenerType_eq_ok {scope : Scope} (hasync : c.async = .str name) {callback : Parameter}
    (hfirst : Parameter.IsFirst name c.parameters callback) (t : String) :
    (c.listenerType scope).result = .ok t ↔
      ∃ value ls, Resolves scope callback value ∧
        List.Forall₂
          (fun ps line => Signature.WritesOverload Signature.Style.inline ""
            (Signature.promise value) (ps.map (Parameter.input scope)) line)
          (c.overloads name) ls ∧
        t = Signature.union ls := by
  -- the shape is decided by what the promise resolves to
  rw [listenerType, Signature.type_eq_ok]
  constructor
  · rintro ⟨shape, ls, hshape, heach, ht⟩
    obtain ⟨value, hvalue, rfl⟩ := (callShape_eq_ok hasync hfirst).mp hshape
    rw [overloads_map_input, List.forall₂_map_left_iff] at heach
    exact ⟨value, ls, hvalue, heach, ht⟩
  · rintro ⟨value, ls, hvalue, heach, ht⟩
    refine ⟨_, ls, (callShape_eq_ok hasync hfirst).mpr ⟨value, hvalue, rfl⟩, ?_, ht⟩
    rwa [overloads_map_input, List.forall₂_map_left_iff]

theorem elides {scope : Scope} (hasync : c.async = .str name) {callback : Parameter}
    (hfirst : Parameter.IsFirst name c.parameters callback) :
    c.Elides scope name callback where
  first := hfirst
  absent ps hps p hp := ne_of_mem_others ((Overload.sublist_of_mem_lists hps).subset hp)
  last := by
    unfold overloads Overload.lists
    exact List.getLast?_concat
  required ps hps := Overload.filter_required_of_mem_lists hps
  lines := lines_eq_ok hasync hfirst
  listener := listenerType_eq_ok hasync hfirst
  arrow q rest value hnested hoptional hfunction h := h.eq_of_isFunction hnested hoptional hfunction

/-- A function with a name and a description that are texts is declared, in every style, and an
event like it has a type for those who listen to it. -/
theorem exists_lines {scope : Scope} (hname : c.name.isText = true)
    (hdescription : DocComment.IsDescription c.description) (hc : c.isTyped = true)
    (h : Typed c.nodes) :
    (∀ style, ∃ ls, ((c.signature scope).lines style scope.current).result = .ok ls) ∧
      ∃ t, (c.listenerType scope).result = .ok t := by
  have hwritable : (c.signature scope).IsWritable :=
    ⟨hname, hdescription, signature_composed hc h scope⟩
  have hlines := fun style => hwritable.exists_lines style scope.current
  refine ⟨hlines, ?_⟩
  -- the type of a listener is made of the lines in the inline style
  obtain ⟨ls, hls⟩ := hlines Signature.Style.inline
  refine ⟨Signature.union ls, ?_⟩
  rw [listenerType, Signature.type, map_eq_pure_bind, Outcome.bind_result hls]
  rfl

/--
**A callback that receives the result is elided.**

If `async` names a parameter, the first parameter of that name is what the promise is made of. In
every style, and in the type of the functions that listen to an event alike, no overload has a
parameter of that name, the last one has all others, and all of them have the required ones; the
comment describes the others only; and all overloads return the same promise. And all of this is
written, if the schema is well typed.
-/
theorem callback_elided {scope : Scope} {c : Callable} {name : String}
    (hasync : c.async = .str name) (hnames : ∃ p ∈ c.parameters, p.name = .str name) :
    (∃ callback, c.Elides scope name callback) ∧
      (c.name.isText = true → DocComment.IsDescription c.description → c.isTyped = true →
        Typed c.nodes →
          (∀ style, ∃ ls, ((c.signature scope).lines style scope.current).result = .ok ls) ∧
            ∃ t, (c.listenerType scope).result = .ok t) := by
  obtain ⟨callback, hfirst⟩ := Parameter.exists_isFirst hnames
  exact ⟨⟨callback, elides hasync hfirst⟩, exists_lines⟩

/-- A function that hands a job over to `done`, which may be left out, with an optional parameter in
front and another one called `done` behind. -/
def takeFunction : Callable where
  name := .str "take"
  async := .str "done"
  description := .str "Takes a job."
  parameters := [⟨.str "queue", ⟨{ optional := true }, .string none⟩⟩,
    ⟨.str "id", ⟨{ description := .str "Its number." }, .number true⟩⟩,
    ⟨.str "done", ⟨{ optional := true, description := .str "Gets it." },
      .function [⟨.str "job", ⟨{}, .function [] none (.bool false)⟩⟩] none (.bool false)⟩⟩,
    ⟨.str "done", ⟨{}, .boolean⟩⟩]
  returns := none
  deprecated := .bool false
  unsupported := false

theorem callback_elided_take :
    (∃ callback, takeFunction.Elides ⟨"jobs", .empty⟩ "done" callback) ∧
      ((takeFunction.signature ⟨"jobs", .empty⟩).lines Signature.Style.declaration "jobs").result =
        .ok ["  /**", "   * Takes a job.", "   * @param id Its number.", "   */",
          "  function take(id: number): Promise<(() => void) | undefined>;",
          "  function take(queue: string, id: number): Promise<(() => void) | undefined>;"] := by
  have hasync : takeFunction.async = .str "done" := rfl
  have hnames : ∃ p ∈ takeFunction.parameters, p.name = .str "done" :=
    ⟨_, List.mem_cons_of_mem _ (List.mem_cons_of_mem _ List.mem_cons_self), rfl⟩
  exact ⟨(callback_elided hasync hnames).1, by cbv⟩

end Schema.Callable

end Typings
