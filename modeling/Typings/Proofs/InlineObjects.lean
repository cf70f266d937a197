import Mathlib.Data.List.Forall2
import Typings.Declaration.File
import Typings.Proofs.Documentation.StrippedLines
import Typings.Proofs.SignatureLines

/-!
# Object types inside other types

An object type is written in two forms. One that has a name is declared as an interface, with a
line for each member; inside another type it is an expression, with the members between braces.
The two forms are written on their own. They agree on the properties and on the index member, text
for text and in the same order. The interface goes on with the functions and the events; the
expression has none of them, and no warning says so. So an object type loses nothing inside another
type exactly if it has no supported function and no supported event.

Both forms are compared with one list of members, `AreProperties` followed by `AreCallables`.
The lines of the interface are that list once the comments are gone (`exists_members`), and the
expression is its first part (`expression_object`). Every supported function and event has a
member, so the second part is empty exactly if there is none of them (`AreCallables.eq_nil_iff`).
-/

namespace Typings.Declaration

open Schema (Node Property Callable Shape)
open DocComment (strip StripsTo stripsTo_render)
open Signature (Style WritesOverload)

/-! ## Members -/

/-- The line of a member in an interface. -/
def memberLine (m : String) : String := "    " ++ m ++ ";"

/-- The interface of this name with these members. -/
def interfaceOf (name : String) (ms : List String) : List String :=
  ["  interface " ++ name ++ " \x7b"] ++ ms.map memberLine ++ ["  \x7d"]

/-- A method between its indentation and its delimiter. -/
def bareMethod : Style := { Style.method with indent := "", delimiter := "" }

variable (scope : Scope)

/-- The member for a property: its key, the mark if it is optional, and its type. -/
def IsMemberFor (p : Property) (m : String) : Prop :=
  ∃ type, (p.node.expression scope).result = .ok type ∧
    m = Expression.member p.name p.node.info.optional type

/-- The member for all properties that have no name of their own. -/
def IsIndexFor (n : Node) (m : String) : Prop :=
  ∃ type, (n.expression scope).result = .ok type ∧ m = Expression.indexMember type

/-- The members for a function, one for each of its overloads. -/
def AreMethodsFor (c : Callable) (ms : List String) : Prop :=
  ∃ shape head, ((c.signature scope).callShape scope.current).result = .ok shape ∧
    Signature.head Style.method c.name = .ok head ∧
    List.Forall₂ (WritesOverload bareMethod head shape.returns) shape.overloads ms

/-- The member for an event. -/
def IsListenerFor (e : Callable) (m : String) : Prop :=
  ∃ listener key, (e.listenerType scope).result = .ok listener ∧
    PropertyKey.ofJson e.name = .ok key ∧
    m = key ++ ": " ++ eventInterface ++ "<" ++ listener ++ ">"

/-- The members for the properties and, behind them, the index member. -/
def AreProperties (properties : Option (List Property)) (additional : Option Node)
    (ms : List String) : Prop :=
  ∃ named index, List.Forall₂ (IsMemberFor scope) (supportedProperties (properties.getD [])) named ∧
    List.Forall₂ (IsIndexFor scope) additional.toList index ∧ ms = named ++ index

/-- The members for the functions and, behind them, those for the events. -/
def AreCallables (functions events : List Callable) (ms : List String) : Prop :=
  ∃ methods listeners, List.Forall₂ (AreMethodsFor scope) (supported functions) methods ∧
    List.Forall₂ (IsListenerFor scope) (supported events) listeners ∧
    ms = methods.flatten ++ listeners

variable {scope}

theorem memberLine_injective : Function.Injective memberLine := by
  intro m m' h
  unfold memberLine at h
  rw [← String.toList_inj] at h
  simp only [String.toList_append, List.append_cancel_right_eq, List.append_cancel_left_eq] at h
  exact String.toList_inj.mp h

/-- An interface has its members only. -/
theorem interfaceOf_injective (name : String) : Function.Injective (interfaceOf name) := by
  intro ms ms' h
  unfold interfaceOf at h
  rw [List.append_cancel_right_eq, List.append_cancel_left_eq] at h
  exact memberLine_injective.list_map h

/-- The line of a member is code. -/
theorem stripsTo_memberLine (m : String) : StripsTo [memberLine m] [memberLine m] :=
  .of_not_opens (DocComment.opens_append ("    " ++ m) (by decide))

theorem stripsTo_memberLines (ms : List String) :
    StripsTo (ms.map memberLine) (ms.map memberLine) := by
  induction ms with
  | nil => exact .nil
  | cons m ms ih => exact (stripsTo_memberLine m).append ih

/-! ## The lines of an interface -/

/-- The lines that are collected are, without their comments, the code of each declaration. -/
theorem stripsTo_collect {α β : Type} {f : α → Outcome (List String)} {R : α → β → Prop}
    {code : β → List String}
    (hf : ∀ a ls, (f a).result = .ok ls → ∃ b, R a b ∧ StripsTo ls (code b)) {as : List α}
    {ls : List String} (h : (collect f as).result = .ok ls) :
    ∃ bs, List.Forall₂ R as bs ∧ StripsTo ls (bs.flatMap code) := by
  induction as generalizing ls with
  | nil =>
    rw [collect, Outcome.pure_result_eq_ok] at h
    exact ⟨[], .nil, h ▸ .nil⟩
  | cons a as ih =>
    simp only [collect, Outcome.bind_result_eq_ok, Outcome.pure_result_eq_ok] at h
    obtain ⟨la, hla, rest, hrest, rfl⟩ := h
    -- comments are stripped declaration by declaration, as none spans two of them
    obtain ⟨b, hb, hstrips⟩ := hf a la hla
    obtain ⟨bs, hbs, hstripsRest⟩ := ih hrest
    exact ⟨b :: bs, .cons hb hbs, hstrips.append hstripsRest⟩

theorem exists_propertyMember (p : Property) (ls : List String)
    (h : (propertyLines scope p).result = .ok ls) :
    ∃ m, IsMemberFor scope p m ∧ StripsTo ls [memberLine m] := by
  simp only [propertyLines, nodeComment, comment, Outcome.bind_result_eq_ok, Outcome.lift_result,
    Outcome.pure_result_eq_ok] at h
  obtain ⟨doc, hdoc, type, htype, rfl⟩ := h
  exact ⟨_, ⟨type, htype, rfl⟩, (stripsTo_render (by decide) hdoc).append (stripsTo_memberLine _)⟩

theorem exists_index {additional : Option Node} {ls : List String}
    (h : (indexLines scope additional).result = .ok ls) :
    ∃ index, List.Forall₂ (IsIndexFor scope) additional.toList index ∧
      StripsTo ls (index.map memberLine) := by
  cases additional with
  | none =>
    rw [indexLines, Outcome.pure_result_eq_ok] at h
    exact ⟨[], .nil, h ▸ .nil⟩
  | some n =>
    simp only [indexLines, Outcome.bind_result_eq_ok, Outcome.pure_result_eq_ok] at h
    obtain ⟨type, htype, rfl⟩ := h
    exact ⟨[_], .cons ⟨type, htype, rfl⟩ .nil, stripsTo_memberLine _⟩

/-- An overload of a method is the line of a member. -/
theorem overloadLine_method (head : String) (returns : Expression) (arguments : List String) :
    Signature.overloadLine Style.method head returns arguments =
      memberLine (Signature.overloadLine bareMethod head returns arguments) := by
  simp [Signature.overloadLine, memberLine, bareMethod, Style.method, String.append_assoc]

/-- The overloads of a method are lines of members, one for each parameter list. -/
theorem exists_overloads {head : String} {returns : Expression} {lists : List (List Input)}
    {ls : List String} (h : List.Forall₂ (WritesOverload Style.method head returns) lists ls) :
    ∃ ms, List.Forall₂ (WritesOverload bareMethod head returns) lists ms ∧
      ls = ms.map memberLine := by
  induction h with
  | nil => exact ⟨[], .nil, rfl⟩
  | cons hline _ ih =>
    obtain ⟨texts, htexts, rfl⟩ := hline
    obtain ⟨ms, hms, rfl⟩ := ih
    exact ⟨_ :: ms, .cons ⟨texts, htexts, rfl⟩ hms, by rw [overloadLine_method]; rfl⟩

theorem exists_methods (c : Callable) (ls : List String)
    (h : ((c.signature scope).lines Style.method scope.current).result = .ok ls) :
    ∃ ms, AreMethodsFor scope c ms ∧ StripsTo ls (ms.map memberLine) := by
  obtain ⟨shape, hshape, doc, overloads, hdoc, hoverloads⟩ := Signature.lines_eq_ok.mp h
  obtain ⟨renamed, head, hrenamed, hhead, hlines, rfl⟩ := hoverloads
  -- only what `function` introduces has to be renamed
  obtain rfl : false = renamed := Except.ok.inj hrenamed
  obtain ⟨ms, hms, rfl⟩ := exists_overloads hlines
  refine ⟨ms, ⟨shape, head, hshape, hhead, hms⟩, ?_⟩
  have hcode := (stripsTo_render (by decide) hdoc).append (stripsTo_memberLines ms)
  simpa [Signature.exports] using hcode

theorem exists_listener (e : Callable) (ls : List String)
    (h : (eventLines scope "    " PropertyKey.ofJson e).result = .ok ls) :
    ∃ m, IsListenerFor scope e m ∧ StripsTo ls [memberLine m] := by
  simp only [eventLines, comment, Outcome.bind_result_eq_ok, Outcome.lift_result,
    Outcome.pure_result_eq_ok] at h
  obtain ⟨doc, hdoc, listener, hlistener, key, hkey, rfl⟩ := h
  refine ⟨_, ⟨listener, key, hlistener, hkey, rfl⟩, ?_⟩
  have hcode := (stripsTo_render (by decide) hdoc).append (stripsTo_memberLine
    (key ++ ": " ++ eventInterface ++ "<" ++ listener ++ ">"))
  simpa [memberLine, String.append_assoc] using hcode

variable {n : Node} {properties : Option (List Property)} {functions events : List Callable}
  {additional : Option Node} {ls : List String}

/-- **The members of an object type, line by line, are those for its properties, and behind them
those for its functions and events.** -/
theorem exists_members (hn : n.shape = .object properties functions events additional)
    (h : (memberLines scope n).result = .ok ls) :
    ∃ shared apart, AreProperties scope properties additional shared ∧
      AreCallables scope functions events apart ∧
      StripsTo ls ((shared ++ apart).map memberLine) := by
  unfold memberLines at h
  rw [hn] at h
  simp only [Outcome.bind_result_eq_ok, Outcome.pure_result_eq_ok] at h
  obtain ⟨ps, hps, is, his, fs, hfs, es, hes, rfl⟩ := h
  -- properties, index, functions, events
  obtain ⟨named, hnamed, hpsCode⟩ := stripsTo_collect exists_propertyMember hps
  obtain ⟨index, hindex, hisCode⟩ := exists_index his
  obtain ⟨methods, hmethods, hfsCode⟩ := stripsTo_collect exists_methods hfs
  obtain ⟨listeners, hlisteners, hesCode⟩ := stripsTo_collect exists_listener hes
  refine ⟨named ++ index, methods.flatten ++ listeners, ⟨named, index, hnamed, hindex, rfl⟩,
    ⟨methods, listeners, hmethods, hlisteners, rfl⟩, ?_⟩
  rw [← List.map_eq_flatMap] at hpsCode hesCode
  rw [List.flatMap_def, ← List.map_flatten] at hfsCode
  rw [List.map_append, List.map_append, List.map_append, ← List.append_assoc]
  exact ((hpsCode.append hisCode).append hfsCode).append hesCode

/-- **A named object type is declared as the interface with these members.** -/
theorem exists_interface (hn : n.shape = .object properties functions events additional)
    (h : (namedTypeLines scope n).result = .ok ls) :
    ∃ shared apart, AreProperties scope properties additional shared ∧
      AreCallables scope functions events apart ∧
      strip ls = interfaceOf n.info.id.display (shared ++ apart) := by
  have hobject : n.isObject = true := by rw [Node.isObject, hn]
  simp only [namedTypeLines, nodeComment, comment, hobject, if_true, interfaceLines,
    Outcome.bind_result_eq_ok, Outcome.lift_result, Outcome.pure_result_eq_ok] at h
  obtain ⟨doc, hdoc, _, ⟨members, hmembers, rfl⟩, rfl⟩ := h
  obtain ⟨shared, apart, hshared, hapart, hcode⟩ := exists_members hn hmembers
  refine ⟨shared, apart, hshared, hapart, ?_⟩
  -- the two lines of the frame are code
  have hfirst : StripsTo ["  interface " ++ n.info.id.display ++ " \x7b"] _ :=
    .of_not_opens (DocComment.opens_append _ (by decide))
  have hlast : StripsTo ["  \x7d"] _ := .of_not_opens (by decide)
  exact ((stripsTo_render (by decide) hdoc).append ((hfirst.append hcode).append hlast)).strip_eq

/-- A function has a member for each of its overloads, and so it has one. -/
theorem AreMethodsFor.ne_nil {c : Callable} {ms : List String} (h : AreMethodsFor scope c ms) :
    ms ≠ [] := by
  obtain ⟨shape, head, -, -, hms⟩ := h
  intro hnil
  rw [hnil, List.forall₂_nil_right_iff] at hms
  exact Overload.lists_ne_nil _ _ hms

/-- There are members for functions and events exactly if any of these is supported. -/
theorem AreCallables.eq_nil_iff {ms : List String} (h : AreCallables scope functions events ms) :
    ms = [] ↔ supported functions = [] ∧ supported events = [] := by
  obtain ⟨methods, listeners, hmethods, hlisteners, rfl⟩ := h
  rw [List.append_eq_nil_iff]
  refine and_congr ?_ ?_
  · constructor
    · intro hflatten
      generalize supported functions = cs at hmethods
      cases hmethods with
      | nil => rfl
      | cons hms _ =>
        -- a function has a line at least, one for each overload
        exact absurd (List.flatten_eq_nil_iff.mp hflatten _ List.mem_cons_self) hms.ne_nil
    · intro hnone
      rw [hnone, List.forall₂_nil_left_iff] at hmethods
      rw [hmethods, List.flatten_nil]
  · rw [← List.length_eq_zero_iff, ← hlisteners.length_eq, List.length_eq_zero_iff]

/-! ## The expression -/

/-- An object type with these members inside another type. One of which the schema says nothing
about properties is any object. -/
def inlineText (properties : Option (List Property)) (additional : Option Node)
    (ms : List String) : String :=
  if properties.isNone && additional.isNone then "object" else Expression.ofObject ms

theorem isNone_and_isNone_iff :
    (properties.isNone && additional.isNone) = true ↔ properties = none ∧ additional = none := by
  rw [Bool.and_eq_true_iff, Option.isNone_iff_eq_none, Option.isNone_iff_eq_none]

/-- The types of the properties and of the index member. -/
def propertyTypes (properties : Option (List Property)) (additional : Option Node) : List Node :=
  (supportedProperties (properties.getD [])).map Property.node ++ additional.toList

/-- What is reported about some types. -/
def warningsOf (scope : Scope) (ns : List Node) : List Warning :=
  ns.flatMap fun n => (n.expression scope).warnings

theorem expression_eq {n : Node} {type : Expression}
    (h : (n.expression scope).result = .ok type) :
    (compile scope n).type = ⟨(n.expression scope).warnings, .ok type⟩ := by
  rw [← h]
  rfl

/-- The members for properties are compiled one by one. -/
theorem compileMembers_eq {ps : List Property} {ms : List String}
    (h : List.Forall₂ (IsMemberFor scope) (supportedProperties ps) ms) :
    compileMembers scope ps =
      ⟨warningsOf scope ((supportedProperties ps).map Property.node), .ok ms⟩ := by
  induction ps generalizing ms with
  | nil =>
    rw [List.forall₂_nil_left_iff.mp h]
    rfl
  | cons p ps ih =>
    obtain ⟨name, n⟩ := p
    -- a property that is not supported counts on neither side
    by_cases hsupported : n.info.unsupported = true
    · have hdrop : supportedProperties (⟨name, n⟩ :: ps) = supportedProperties ps :=
        List.filter_cons_of_neg (by simp [hsupported])
      rw [hdrop] at h ⊢
      rw [compileMembers, if_pos hsupported, ih h]
    · have hkeep : supportedProperties (⟨name, n⟩ :: ps) = ⟨name, n⟩ :: supportedProperties ps :=
        List.filter_cons_of_pos (by simpa using hsupported)
      rw [hkeep, List.forall₂_cons_left_iff] at h
      obtain ⟨m, ms, ⟨type, htype, rfl⟩, hms, rfl⟩ := h
      rw [compileMembers, if_neg hsupported, expression_eq htype, ih hms, hkeep]
      simp [warningsOf]

theorem compileIndex_eq {index : List String}
    (h : List.Forall₂ (IsIndexFor scope) additional.toList index) :
    compileIndex scope additional = ⟨warningsOf scope additional.toList, .ok index⟩ := by
  cases additional with
  | none =>
    rw [List.forall₂_nil_left_iff.mp h]
    rfl
  | some n =>
    obtain ⟨m, ms, ⟨type, htype, rfl⟩, hms, rfl⟩ := List.forall₂_cons_left_iff.mp h
    rw [List.forall₂_nil_left_iff.mp hms, compileIndex, expression_eq htype]
    simp [warningsOf]

/-- An object type of which the schema says something about properties is written member by
member. -/
theorem expression_of_members (hn : n.shape = .object properties functions events additional)
    (hsome : (properties.isNone && additional.isNone) = false) :
    n.expression scope = do
      let members ← compileMembers scope (properties.getD [])
      let index ← compileIndex scope additional
      return .text (Expression.ofObject (members ++ index)) := by
  obtain ⟨info, shape⟩ := n
  obtain rfl : shape = .object properties functions events additional := hn
  -- where only the index member is there, there are no members to compile
  cases properties with
  | some ps => rw [Node.expression, compile, Option.getD_some]
  | none =>
    cases additional with
    | none => exact absurd hsome (by simp)
    | some a =>
      rw [Node.expression, compile, Option.getD_none, compileMembers, compileIndex]
      simp only [pure_bind, bind_assoc, List.nil_append]

/-- **Inside another type an object type is written with its properties and its index member**, and
what is reported are the warnings of their types. -/
theorem expression_object (hn : n.shape = .object properties functions events additional)
    {ms : List String} (h : AreProperties scope properties additional ms) :
    n.expression scope = ⟨warningsOf scope (propertyTypes properties additional),
      .ok (.text (inlineText properties additional ms))⟩ := by
  obtain ⟨named, index, hnamed, hindex, rfl⟩ := h
  unfold inlineText
  -- an object type about which nothing is said has a word of its own
  by_cases hnone : (properties.isNone && additional.isNone) = true
  · obtain ⟨rfl, rfl⟩ := isNone_and_isNone_iff.mp hnone
    obtain ⟨info, shape⟩ := n
    obtain rfl : shape = .object none functions events none := hn
    rfl
  · rw [expression_of_members hn (Bool.eq_false_iff.mpr hnone), if_neg hnone,
      compileMembers_eq hnamed, compileIndex_eq hindex]
    simp [propertyTypes, warningsOf]

/-- The text of an object type starts with a brace. -/
theorem exists_toList_ofObject (ms : List String) :
    ∃ s, (Expression.ofObject ms).toList = '\x7b' :: s := by
  cases ms with
  | nil => exact ⟨_, rfl⟩
  | cons m ms =>
    have htext : Expression.ofObject (m :: ms) =
        "\x7b" ++ (" " ++ "; ".intercalate (m :: ms) ++ " \x7d") := by
      show "\x7b " ++ "; ".intercalate (m :: ms) ++ " \x7d" = _
      rw [show "\x7b " = "\x7b" ++ " " from rfl, String.append_assoc, String.append_assoc,
        String.append_assoc]
    exact ⟨_, by rw [htext, String.toList_append]; rfl⟩

/-- In a union an object type stands without parentheses: it is a word, or starts with a brace. -/
theorem parenthesizeText_inlineText (properties : Option (List Property))
    (additional : Option Node) (ms : List String) :
    Expression.parenthesizeText (inlineText properties additional ms) =
      inlineText properties additional ms := by
  unfold inlineText
  split
  · decide
  · obtain ⟨s, hs⟩ := exists_toList_ofObject ms
    rw [Expression.parenthesizeText, hs]
    simp

/-! ## The two forms -/

/-- **Inside another type an object type has the properties and the index member of its interface,
and none of its functions and events.** The members that both have are the same texts in the same
order, as an option of a union too, and whatever is reported is about the types of these members. So
nothing is missing exactly if no function and no event is supported. -/
theorem expression_without_callables
    (hn : n.shape = .object properties functions events additional)
    (h : (namedTypeLines scope n).result = .ok ls) :
    ∃ shared apart, AreProperties scope properties additional shared ∧
      AreCallables scope functions events apart ∧
      strip ls = interfaceOf n.info.id.display (shared ++ apart) ∧
      n.expression scope = ⟨warningsOf scope (propertyTypes properties additional),
        .ok (.text (inlineText properties additional shared))⟩ ∧
      (Expression.text (inlineText properties additional shared)).option =
        .ok (inlineText properties additional shared) ∧
      (apart = [] ↔ supported functions = [] ∧ supported events = []) := by
  obtain ⟨shared, apart, hshared, hapart, hstrip⟩ := exists_interface hn h
  have hoption : (Expression.text (inlineText properties additional shared)).option =
      .ok (Expression.parenthesizeText (inlineText properties additional shared)) := rfl
  rw [parenthesizeText_inlineText] at hoption
  exact ⟨shared, apart, hshared, hapart, hstrip, expression_object hn hshared, hoption,
    hapart.eq_nil_iff⟩

/-- A connection with members of every kind, one of each kind supported. -/
def port : Node where
  info := { id := .str "Port" }
  shape := .object
    (some [
      ⟨"name", ⟨{ description := .str "Who is connected." }, .string none⟩⟩,
      ⟨"sender", ⟨{ unsupported := true }, .any⟩⟩])
    [⟨.str "close", .bool false, .null, [], none, .bool false, false⟩,
      ⟨.str "flush", .bool false, .null, [], none, .bool false, true⟩]
    [⟨.str "onClose", .bool false, .null, [], none, .bool false, false⟩]
    (some ⟨{}, .number false⟩)

/-- The interface that declares it. -/
def portLines : List String :=
  ["  interface Port \x7b", "    /**", "     * Who is connected.", "     */", "    name: string;",
    "    [key: string]: number;", "    close(): void;", "    onClose: WebExtEvent<() => void>;",
    "  \x7d"]

theorem expression_without_callables_port :
    (namedTypeLines ⟨"runtime", .empty⟩ port).result = .ok portLines ∧
      ∃ shared apart, strip portLines = interfaceOf "Port" (shared ++ apart) ∧
        (port.expression ⟨"runtime", .empty⟩).result =
          .ok (.text (Expression.ofObject shared)) ∧ apart ≠ [] := by
  have hlines : (namedTypeLines ⟨"runtime", .empty⟩ port).result = .ok portLines := rfl
  obtain ⟨shared, apart, -, -, hstrip, hexpression, -, hnone⟩ :=
    expression_without_callables rfl hlines
  refine ⟨hlines, shared, apart, hstrip, ?_, ?_⟩
  · rw [hexpression]
    rfl
  · intro hnil
    exact absurd (hnone.mp hnil).1 (List.cons_ne_nil _ _)

/-! ## Nothing is dropped silently -/

/-- The expression of an object type with these members. -/
def IsInlineOf (ms : List String) (e : Expression) : Prop :=
  e = .text (Expression.ofObject ms) ∨ ms = [] ∧ e = .text "object"

/-- Every member that the interface of an object type declares is one of the members of its
expression, or else something is reported. -/
def KeepsMembers (scope : Scope) (n : Node) : Prop :=
  ∀ ls ms, (namedTypeLines scope n).result = .ok ls →
    strip ls = interfaceOf n.info.id.display ms →
    (n.expression scope).warnings ≠ [] ∨
      ∃ inside e, ms ⊆ inside ∧ (n.expression scope).result = .ok e ∧ IsInlineOf inside e

theorem isInlineOf_inlineText {ms : List String}
    (h : AreProperties scope properties additional ms) :
    IsInlineOf ms (.text (inlineText properties additional ms)) := by
  unfold inlineText
  by_cases hnone : (properties.isNone && additional.isNone) = true
  · rw [if_pos hnone]
    obtain ⟨rfl, rfl⟩ := isNone_and_isNone_iff.mp hnone
    obtain ⟨named, index, hnamed, hindex, rfl⟩ := h
    rw [List.forall₂_nil_left_iff.mp hnamed, List.forall₂_nil_left_iff.mp hindex]
    exact .inr ⟨rfl, rfl⟩
  · rw [if_neg hnone]
    exact .inl rfl

/-- **Without functions and events an object type keeps all its members.** -/
theorem keepsMembers (hn : n.shape = .object properties functions events additional)
    (hfunctions : supported functions = []) (hevents : supported events = []) :
    KeepsMembers scope n := by
  intro ls ms h hstrip
  obtain ⟨shared, apart, hshared, hapart, hstrip'⟩ := exists_interface hn h
  have hnone : apart = [] := hapart.eq_nil_iff.mpr ⟨hfunctions, hevents⟩
  have hms : ms = shared := by
    rw [hstrip, hnone, List.append_nil] at hstrip'
    exact interfaceOf_injective _ hstrip'
  refine .inr ⟨shared, _, hms ▸ List.Subset.refl _, ?_, isInlineOf_inlineText hshared⟩
  rw [expression_object hn hshared]

/-- An object that can be closed, and nothing else. -/
def closable : Node where
  info := { id := .str "Closable" }
  shape := .object none [⟨.str "close", .bool false, .null, [], none, .bool false, false⟩] [] none

/-- The function of its interface is not in its expression, and nothing is reported. -/
theorem not_keepsMembers_closable : ¬ KeepsMembers ⟨"runtime", .empty⟩ closable := by
  intro h
  have hlines : (namedTypeLines ⟨"runtime", .empty⟩ closable).result =
      .ok (interfaceOf "Closable" ["close(): void"]) := rfl
  have hstrip : strip (interfaceOf "Closable" ["close(): void"]) =
      interfaceOf "Closable" ["close(): void"] := by decide
  have hexpression : closable.expression ⟨"runtime", .empty⟩ = ⟨[], .ok (.text "object")⟩ := rfl
  rcases h _ _ hlines hstrip with hwarned | ⟨inside, e, hsubset, he, hinline⟩
  · exact hwarned (by rw [hexpression])
  · have hclose : "close(): void" ∈ inside := hsubset List.mem_cons_self
    rw [hexpression] at he
    obtain rfl : Expression.text "object" = e := Except.ok.inj he
    -- the word for any object is not a list of members between braces
    rcases hinline with htext | ⟨hnil, -⟩
    · obtain ⟨s, hs⟩ := exists_toList_ofObject inside
      rw [← Expression.text.inj htext] at hs
      exact absurd (List.cons.inj hs).1 (by decide)
    · rw [hnil] at hclose
      exact List.not_mem_nil hclose

end Typings.Declaration
