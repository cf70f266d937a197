import Mathlib.Logic.Relation
import Typings.Proofs.DeclaredReferences
import Typings.Proofs.DroppedNamespaces
import Typings.Proofs.Parameters
import Typings.Proofs.WellTyped
import Typings.Proofs.Composition.Types
import Typings.Proofs.Documentation.Bare

/-!
# Warnings point to what is written out

Of a type not everything is written out: members that are not supported are left out, and of a
function only what callers see, and what the promise resolves to. Here it is told which nodes
inside a node are written out (`Rendered`), and what each of them raises by itself. Compiling
raises exactly that: no warning comes from elsewhere, and none is lost.

One thing can get in the way. The name of a parameter is looked up among the reserved words, and a
list or an object cannot be looked up. Compiling stops there, so that later warnings are not
raised. What is raised before is accounted for all the same.

**How it is proved.** A run is described by the events that it can meet (`Outcome.Meets`): a
warning, or something at which it stops. The description goes through `bind` and `map`, so each
function of the compiler has one lemma that names its events. `compiles_of_shows` has one case
for each shape of a node and takes for granted what is written out inside it. Since that is
smaller than the node (`Shows.sizeOf_lt`), `compiles` follows by induction on the size.
-/

namespace Typings

open Relation (ReflTransGen)
open Schema (Node Shape Parameter Property Callable Convention)

namespace Schema

/-! ## What is written out -/

/-- The convention is known: the call returns its result, or a promise about which nothing is
known, or it hands over its result through one of its parameters. -/
inductive KnownConvention (ps : List Parameter) : Json → Prop
  | direct : KnownConvention ps (.bool false)
  | promise : KnownConvention ps (.bool true)
  | callback {name : String} (h : ∃ p ∈ ps, p.name = .str name) : KnownConvention ps (.str name)

/-- The parameters that callers see. -/
def visible (ps : List Parameter) : Json → List Parameter
  | .bool _ => ps
  | .str name =>
    if ∃ p ∈ ps, p.name = .str name then ps.filter fun p => !(p.name == .str name) else []
  | _ => []

/-- The type of the result is written out: that of what the call returns, unless it is an array, or
that of the first parameter of the callback. -/
inductive ShowsResult (ps : List Parameter) (returns : Option Node) : Json → Node → Prop
  | returns {m : Node} (hreturns : returns = some m) (harray : m.isArray = false) :
      ShowsResult ps returns (.bool false) m
  | callback {name : String} {p q : Parameter} {rest : List Parameter}
      (hfirst : Parameter.IsFirst name ps p) (hnested : p.nested = q :: rest) :
      ShowsResult ps returns (.str name) q.node

namespace Node

/-- One node is written out as a part of another one. -/
inductive Shows : Node → Node → Prop
  | items {i : Info} {m : Node} : Shows ⟨i, .array (some m)⟩ m
  | option {i : Info} {options : List Node} {m : Node} (h : m ∈ options) :
      Shows ⟨i, .choice options⟩ m
  | property {i : Info} {ps : List Property} {fs es : List Callable} {a : Option Node}
      {p : Property} (h : p ∈ ps) (hsupported : p.node.info.unsupported = false) :
      Shows ⟨i, .object (some ps) fs es a⟩ p.node
  | additional {i : Info} {ps : Option (List Property)} {fs es : List Callable} {m : Node} :
      Shows ⟨i, .object ps fs es (some m)⟩ m
  | parameter {i : Info} {ps : List Parameter} {r : Option Node} {async : Json} {p : Parameter}
      (h : p ∈ visible ps async) : Shows ⟨i, .function ps r async⟩ p.node
  | result {i : Info} {ps : List Parameter} {r : Option Node} {async : Json} {m : Node}
      (h : ShowsResult ps r async m) : Shows ⟨i, .function ps r async⟩ m

/-- A node is written out as a part of another one, at whatever depth, or is that one. -/
def Rendered (n m : Node) : Prop := ReflTransGen Shows n m

/-- What a node raises by itself. -/
inductive Raises (scope : Scope) : Node → Warning → Prop
  | unresolved {i : Info} {ref : String} (hpoint : Text.mentions "." ref = false)
      (h : ∀ r ∈ scope.table.records, ∀ t ∈ r.types, t.info.id ≠ .str ref) :
      Raises scope ⟨i, .reference (.str ref)⟩ (.unresolvedReference (.str ref) scope.current)
  | arrayWithoutItems {i : Info} :
      Raises scope ⟨i, .array none⟩ (.arrayWithoutItems i.id scope.current)
  | unknownConvention {i : Info} {ps : List Parameter} {r : Option Node} {async : Json}
      (h : ¬ KnownConvention ps async) :
      Raises scope ⟨i, .function ps r async⟩ (.unknownConvention (.str "") async scope.current)

/-- A function that cannot be written, because callers would see a parameter whose name is a list
or an object. -/
inductive Unwritable : Node → Prop
  | intro {i : Info} {ps : List Parameter} {r : Option Node} {async : Json} {p : Parameter}
      (h : p ∈ visible ps async) (hname : p.name.isComposite = true) :
      Unwritable ⟨i, .function ps r async⟩

end Node

end Schema

/-! ## Runs that raise what they meet -/

/-- What a run can meet: something to report, or something at which it stops. -/
inductive Event where
  | warning (w : Warning)
  | stop

/-- A run meets these events: it raises no other warnings, and either it stops or it raises all of
them and ends with such a value. -/
structure Outcome.Meets {α : Type} (o : Outcome α) (P : α → Prop) (E : Event → Prop) : Prop where
  sound : ∀ w ∈ o.warnings, E (.warning w)
  stops : E .stop → o.result = .error .compositeKey
  goes : ¬ E .stop → (∃ a, o.result = .ok a ∧ P a) ∧ ∀ w, E (.warning w) → w ∈ o.warnings

namespace Outcome.Meets

variable {α β : Type} {o : Outcome α} {P : α → Prop} {Q : β → Prop} {E F : Event → Prop}

theorem congr (h : o.Meets P E) (hE : ∀ e, E e ↔ F e) : o.Meets P F := by
  obtain rfl : E = F := funext fun e => propext (hE e)
  exact h

theorem pure {a : α} (h : P a) : (return a : Outcome α).Meets P fun _ => False where
  sound _ hw := absurd hw List.not_mem_nil
  stops := False.elim
  goes _ := ⟨⟨a, rfl, h⟩, fun _ => False.elim⟩

theorem done (a : α) : (return a : Outcome α).Meets (fun _ => True) fun _ => False := pure trivial

theorem lift {r : Except Fault α} {a : α} (hr : r = .ok a) :
    (liftM r : Outcome α).Meets (fun _ => True) fun _ => False := by
  subst hr
  exact done a

theorem warn (w : Warning) : (Outcome.warn w).Meets (fun _ => True) (· = .warning w) where
  sound _ hmem := congrArg Event.warning (List.mem_singleton.mp hmem)
  stops := nofun
  goes _ := ⟨⟨(), rfl, trivial⟩, fun _ h => List.mem_singleton.mpr (Event.warning.inj h)⟩

/-- What the first part of a run meets, and then what the second one does. -/
theorem bind {f : α → Outcome β} (h : o.Meets P E) (hf : ∀ a, P a → (f a).Meets Q F) :
    (o >>= f).Meets Q fun e => E e ∨ F e := by
  obtain ⟨ws, r⟩ := o
  -- if the first part stops, the second one is never run
  by_cases hstop : E .stop
  · obtain rfl : r = .error .compositeKey := h.stops hstop
    exact ⟨fun w hw => .inl (h.sound w hw), fun _ => rfl, fun hnot => absurd (.inl hstop) hnot⟩
  · obtain ⟨⟨a, ha, hP⟩, hall⟩ := h.goes hstop
    obtain rfl : r = .ok a := ha
    have hsecond := hf a hP
    refine ⟨fun w hw => ?_, fun hstops => ?_, fun hnot => ⟨?_, fun w hw => ?_⟩⟩
    · exact (List.mem_append.mp hw).imp (h.sound w) (hsecond.sound w)
    · exact hsecond.stops (hstops.resolve_left hstop)
    · exact (hsecond.goes fun hstops => hnot (.inr hstops)).1
    · refine List.mem_append.mpr (hw.imp (hall w) ?_)
      exact (hsecond.goes fun hstops => hnot (.inr hstops)).2 w

/-- What is done with the value at the end meets nothing. -/
theorem map {f : α → β} (h : o.Meets P E) (hf : ∀ a, P a → Q (f a)) : (f <$> o).Meets Q E := by
  rw [map_eq_pure_bind]
  exact (h.bind fun a ha => pure (hf a ha)).congr fun e => or_iff_left not_false

end Outcome.Meets

/-! ## What a node leads to -/

namespace Schema

namespace Node

/-- What a node brings about by itself. -/
def Causes (scope : Scope) (n : Node) : Event → Prop
  | .warning w => n.Raises scope w
  | .stop => n.Unwritable

/-- What a node and all that is written out with it bring about. -/
def LeadsTo (scope : Scope) (n : Node) (e : Event) : Prop := ∃ m, n.Rendered m ∧ m.Causes scope e

variable {scope : Scope} {n : Node} {e : Event}

/-- A node leads to what it causes by itself, and to what is led to by what is written out in it. -/
theorem leadsTo_iff :
    n.LeadsTo scope e ↔ n.Causes scope e ∨ ∃ m, n.Shows m ∧ m.LeadsTo scope e := by
  constructor
  · rintro ⟨m, hm, he⟩
    rcases ReflTransGen.cases_head hm with rfl | ⟨k, hk, hm⟩
    · exact .inl he
    · exact .inr ⟨k, hk, m, hm, he⟩
  · rintro (he | ⟨k, hk, m, hm, he⟩)
    · exact ⟨n, .refl, he⟩
    · exact ⟨m, .head hk hm, he⟩

/-- References, arrays and functions bring something about, other nodes only through what is written
out with them. -/
theorem leadsTo_iff_of_not_causes (hcauses : ¬ n.Causes scope e) :
    n.LeadsTo scope e ↔ ∃ m, n.Shows m ∧ m.LeadsTo scope e := by
  rw [leadsTo_iff, or_iff_right hcauses]

theorem not_leadsTo (hcauses : ¬ n.Causes scope e) (hshows : ∀ m, ¬ n.Shows m) :
    ¬ n.LeadsTo scope e := by
  rw [leadsTo_iff_of_not_causes hcauses]
  rintro ⟨m, hm, -⟩
  exact hshows m hm

end Node

/-! ### What is written out is smaller -/

theorem Parameter.sizeOf_node_lt {p : Parameter} {ps : List Parameter} (h : p ∈ ps) :
    sizeOf p.node < sizeOf ps := by
  have hlt := List.sizeOf_lt_of_mem h
  obtain ⟨name, n⟩ := p
  simp only [Parameter.mk.sizeOf_spec] at hlt
  show sizeOf n < sizeOf ps
  omega

theorem mem_of_mem_visible {ps : List Parameter} {async : Json} {p : Parameter}
    (h : p ∈ visible ps async) : p ∈ ps := by
  unfold visible at h
  split at h
  · exact h
  · split at h
    · exact (List.mem_filter.mp h).1
    · cases h
  · cases h

theorem Node.Shows.sizeOf_lt {n m : Node} (h : n.Shows m) : sizeOf m < sizeOf n := by
  cases h with
  | items => simp; omega
  | option h =>
    have hlt := List.sizeOf_lt_of_mem h
    simp; omega
  | @property _ _ _ _ _ p h _ =>
    have hlt := List.sizeOf_lt_of_mem h
    obtain ⟨name, n⟩ := p
    simp at hlt ⊢; omega
  | additional => simp; omega
  | parameter h =>
    have hlt := Parameter.sizeOf_node_lt (mem_of_mem_visible h)
    simp; omega
  | result h =>
    cases h with
    | returns hreturns _ =>
      subst hreturns
      simp; omega
    | @callback _ p q rest hfirst hnested =>
      have hcallback := Parameter.sizeOf_node_lt hfirst.mem
      -- the result of a callback is two levels down, behind the node of the callback
      have hparameters : sizeOf (q :: rest) < sizeOf p.node := by
        obtain ⟨name, i, shape⟩ := p
        cases shape with
        | function parameters returns async =>
          obtain rfl : parameters = q :: rest := hnested
          simp; omega
        | _ => cases hnested
      have hq := Parameter.sizeOf_node_lt (List.mem_cons_self (a := q) (l := rest))
      simp; omega

end Schema

/-- The expression is a text of its own. -/
def Expression.IsText (e : Expression) : Prop := ∃ s, e = .text s

/-- A node compiles to a text, unless it has to stop, and raises what it leads to. -/
def Schema.Node.Compiles (scope : Scope) (n : Node) : Prop :=
  (n.expression scope).Meets Expression.IsText (n.LeadsTo scope)

open Outcome (Meets)

section Compiling

variable {scope : Scope}

/-! ## References -/

theorem Table.declaring_str_eq_nil {t : Table} {ref : String} : t.declaring (.str ref) = [] ↔
    ∀ r ∈ t.records, ∀ n ∈ r.types, n.info.id ≠ .str ref := by
  rw [Table.declaring, List.map_eq_nil_iff, List.filter_eq_nil_iff]
  simp only [Schema.Record.declares, List.any_eq_true, Json.equals_str, not_exists, not_and, ne_eq]

theorem leadsTo_reference {i : Schema.Info} {ref : String} {e : Event} :
    Node.LeadsTo scope ⟨i, .reference (.str ref)⟩ e ↔
      e = .warning (.unresolvedReference (.str ref) scope.current) ∧
        Text.mentions "." ref = false ∧ scope.table.declaring (.str ref) = [] := by
  rw [Node.leadsTo_iff, Table.declaring_str_eq_nil]
  constructor
  -- nothing is inside a reference, so it is itself the cause
  · rintro (hcauses | ⟨m, hm, -⟩)
    · cases e with
      | warning w =>
        cases hcauses with
        | unresolved hpoint h => exact ⟨rfl, hpoint, h⟩
      | stop => cases hcauses
    · cases hm
  · rintro ⟨rfl, hpoint, h⟩
    exact .inl (.unresolved hpoint h)

/-- **A reference is reported exactly if it names no namespace and no namespace declares it.** -/
theorem compiles_reference (i : Schema.Info) (ref : String) :
    Node.Compiles scope ⟨i, .reference (.str ref)⟩ := by
  have hexpression : Node.expression scope ⟨i, .reference (.str ref)⟩ =
      scope.qualify (.str ref) := by
    rw [Node.expression, compile]
  unfold Node.Compiles
  rw [hexpression]
  refine Meets.congr ?_ fun e => leadsTo_reference.symm
  -- with a point nothing is looked up; without one, the table decides
  cases hpoint : Text.mentions "." ref with
  | true =>
    rw [Scope.qualify_of_point hpoint]
    exact (Meets.pure ⟨ref, rfl⟩).congr fun e => by simp
  | false =>
    cases hresolve : scope.table.resolve scope.current (.str ref) with
    | none =>
      have hnone := Table.resolve_eq_none_iff.mp hresolve
      have hwarn := (Meets.warn (.unresolvedReference (.str ref) scope.current)).bind
        fun _ _ => Meets.pure (P := Expression.IsText) ⟨ref, rfl⟩
      rw [Scope.qualify_of_none hpoint hresolve]
      exact hwarn.congr fun e => by simp [hnone]
    | some m =>
      have hsome : scope.table.declaring (.str ref) ≠ [] := fun hnil => by
        rw [Table.resolve_eq_none_iff.mpr hnil] at hresolve
        cases hresolve
      obtain ⟨s, hs⟩ : ∃ s, scope.qualify (.str ref) = return .text s := by
        by_cases hm : m = scope.current
        · subst hm
          exact ⟨ref, by simp [Scope.qualify, isQualified, hpoint, hresolve, Outcome.lift_eq,
            Expression.ofName]⟩
        · exact ⟨_, Scope.qualify_of_some hpoint hresolve hm⟩
      rw [hs]
      exact (Meets.pure ⟨s, rfl⟩).congr fun e => by simp [hsome]

/-! ## Options and members -/

theorem compileOptions_meets {ns : List Node} (h : ∀ n ∈ ns, n.Compiles scope) :
    (compileOptions scope ns).Meets (fun _ => True) fun e => ∃ n ∈ ns, n.LeadsTo scope e := by
  induction ns with
  | nil =>
    rw [compileOptions]
    exact (Meets.done _).congr fun e => by simp
  | cons n ns ih =>
    obtain ⟨hn, hns⟩ := List.forall_mem_cons.mp h
    rw [compileOptions]
    refine (hn.bind (F := fun e => ∃ n ∈ ns, n.LeadsTo scope e) fun type htype => ?_).congr
      fun e => by simp
    obtain ⟨s, rfl⟩ := htype
    -- what compiles to a text can be an option of a union
    have hoption : Expression.option (.text s) = .ok (Expression.parenthesizeText s) := rfl
    refine ((Meets.lift hoption).bind fun option _ =>
      (ih hns).bind fun options _ => Meets.done _).congr fun e => by simp

theorem compileMembers_meets {ps : List Property}
    (h : ∀ p ∈ ps, p.node.info.unsupported = false → p.node.Compiles scope) :
    (compileMembers scope ps).Meets (fun _ => True) fun e =>
      ∃ p ∈ ps, p.node.info.unsupported = false ∧ p.node.LeadsTo scope e := by
  induction ps with
  | nil =>
    rw [compileMembers]
    exact (Meets.done _).congr fun e => by simp
  | cons p ps ih =>
    obtain ⟨hp, hps⟩ := List.forall_mem_cons.mp h
    obtain ⟨name, n⟩ := p
    rw [compileMembers]
    -- a property that is not supported is not compiled, so nothing comes of it
    cases hsupported : n.info.unsupported with
    | true =>
      rw [if_pos rfl]
      exact (ih hps).congr fun e => by simp [hsupported]
    | false =>
      rw [if_neg Bool.false_ne_true]
      exact ((hp hsupported).bind fun type _ => (ih hps).bind fun members _ =>
        Meets.done _).congr fun e => by simp [hsupported]

theorem compileIndex_meets {o : Option Node} (h : ∀ n, o = some n → n.Compiles scope) :
    (compileIndex scope o).Meets (fun _ => True) fun e => ∃ n, o = some n ∧ n.LeadsTo scope e := by
  cases o with
  | none =>
    rw [compileIndex]
    exact (Meets.done _).congr fun e => by simp
  | some n =>
    rw [compileIndex]
    exact ((h n rfl).bind fun type _ => Meets.done _).congr fun e => by simp

/-! ## Parameters and overloads -/

/-- What a parameter leads to where it is written: its name may be a list or an object, and its
type leads to something by itself. -/
def Schema.Parameter.LeadsTo (scope : Scope) (p : Parameter) (e : Event) : Prop :=
  e = .stop ∧ p.name.isComposite = true ∨ p.node.LeadsTo scope e

theorem Reserved.exists_covers {v : Json} (h : v.isComposite = false) :
    ∃ b, Reserved.covers v = .ok b := by
  cases v with
  | scalar s => cases s <;> exact ⟨_, rfl⟩
  | arr items => cases h
  | obj fields => cases h

theorem Reserved.covers_of_isComposite {v : Json} (h : v.isComposite = true) :
    Reserved.covers v = .error .compositeKey := by
  cases v with
  | scalar s => cases h
  | arr items => rfl
  | obj fields => rfl

/-- **A name is declared, but for a list or an object**, which cannot be looked up. -/
theorem declaredName_meets (p : Input) :
    (liftM p.declaredName : Outcome String).Meets (fun _ => True) fun e =>
      e = .stop ∧ p.name.isComposite = true := by
  cases hcomposite : p.name.isComposite with
  | false =>
    obtain ⟨reserved, hreserved⟩ := Reserved.exists_covers hcomposite
    have hdeclared : ∃ name, p.declaredName = .ok name := by
      unfold Input.declaredName
      rw [hreserved]
      cases reserved <;> exact ⟨_, rfl⟩
    obtain ⟨name, hname⟩ := hdeclared
    exact (Meets.lift hname).congr fun e => by simp
  | true =>
    -- a list or an object cannot be looked up among the reserved words
    have hdeclared : p.declaredName = .error .compositeKey := by
      unfold Input.declaredName
      rw [Reserved.covers_of_isComposite hcomposite]
      rfl
    exact ⟨nofun, fun _ => hdeclared, fun hnot => absurd ⟨rfl, rfl⟩ hnot⟩

theorem render_meets {p : Parameter} (h : p.node.Compiles scope) (trailing : Bool) :
    ((p.input scope).render trailing).Meets (fun _ => True) (p.LeadsTo scope) := by
  unfold Input.render
  exact ((declaredName_meets (p.input scope)).bind fun name _ => Meets.bind h fun type _ =>
    Meets.done _).congr fun e => by simp [Parameter.LeadsTo, Parameter.input]

theorem renderAll_meets {ps : List Parameter} (h : ∀ p ∈ ps, p.node.Compiles scope) :
    (Input.renderAll (ps.map (Parameter.input scope))).Meets (fun _ => True) fun e =>
      ∃ p ∈ ps, p.LeadsTo scope e := by
  induction ps with
  | nil =>
    rw [List.map_nil, Input.renderAll]
    exact (Meets.done _).congr fun e => by simp
  | cons p ps ih =>
    obtain ⟨hp, hps⟩ := List.forall_mem_cons.mp h
    rw [List.map_cons, Input.renderAll]
    exact ((render_meets hp _).bind fun text _ => (ih hps).bind fun texts _ =>
      Meets.done _).congr fun e => by simp

theorem renderEach_meets {name : Json} {returns : Expression} {pss : List (List Parameter)}
    (h : ∀ ps ∈ pss, ∀ p ∈ ps, p.node.Compiles scope) :
    (Signature.renderEach Signature.Style.inline name returns
        (pss.map (List.map (Parameter.input scope)))).Meets (fun _ => True) fun e =>
      ∃ ps ∈ pss, ∃ p ∈ ps, p.LeadsTo scope e := by
  induction pss with
  | nil =>
    rw [List.map_nil, Signature.renderEach]
    exact (Meets.done _).congr fun e => by simp
  | cons ps pss ih =>
    obtain ⟨hps, hpss⟩ := List.forall_mem_cons.mp h
    have hhead : Signature.head Signature.Style.inline name = .ok "" := rfl
    -- a line raises what its own parameters raise, each overload again
    have hone : (Signature.renderOne Signature.Style.inline name returns
        (ps.map (Parameter.input scope))).Meets (fun _ => True) fun e =>
          ∃ p ∈ ps, p.LeadsTo scope e := by
      unfold Signature.renderOne
      exact ((renderAll_meets hps).bind fun texts _ => (Meets.lift hhead).bind fun head _ =>
        Meets.done _).congr fun e => by simp
    rw [List.map_cons, Signature.renderEach]
    exact (hone.bind fun line _ => (ih hpss).bind fun lines _ =>
      Meets.done _).congr fun e => by simp

/-- The overloads of some parameters lead to what the parameters lead to: each of them is in the
last overload. -/
theorem exists_mem_lists_iff {ps : List Parameter} {optional : Parameter → Bool}
    {P : Parameter → Prop} :
    (∃ l ∈ Overload.lists optional ps, ∃ p ∈ l, P p) ↔ ∃ p ∈ ps, P p := by
  constructor
  · rintro ⟨l, hl, p, hp, h⟩
    exact ⟨p, (Overload.sublist_of_mem_lists hl).subset hp, h⟩
  · rintro ⟨p, hp, h⟩
    exact ⟨ps, Overload.self_mem_lists optional ps, p, hp, h⟩

/-! ## Functions -/

open Schema (KnownConvention ShowsResult visible)

theorem compileOutput_meets {r : Option Node}
    (h : ∀ m, r = some m → m.isArray = false → m.Compiles scope) :
    (compileOutput scope r).Meets Expression.IsText fun e =>
      ∃ m, r = some m ∧ m.isArray = false ∧ m.LeadsTo scope e := by
  cases r with
  | none =>
    rw [compileOutput]
    exact (Meets.pure ⟨_, rfl⟩).congr fun e => by simp
  | some m =>
    rw [compileOutput]
    -- an array is written out without being compiled
    cases harray : m.isArray with
    | true =>
      rw [if_pos rfl]
      exact (Meets.pure ⟨_, rfl⟩).congr fun e => by simp [harray]
    | false =>
      rw [if_neg Bool.false_ne_true]
      exact (h m rfl harray).congr fun e => by simp [harray]

theorem resolvedType_meets {p : Parameter}
    (h : ∀ q rest, p.nested = q :: rest → q.node.Compiles scope) :
    (Signature.resolvedType (p.input scope)).Meets (fun _ => True) fun e =>
      ∃ q rest, p.nested = q :: rest ∧ q.node.LeadsTo scope e := by
  have hfirst : (p.input scope).firstArgument =
      p.nested.head?.map fun q => q.node.expression scope := rfl
  unfold Signature.resolvedType
  rw [hfirst]
  cases hnested : p.nested with
  | nil => exact (Meets.done _).congr fun e => by simp
  -- the type of the first nested parameter is compiled, and parentheses raise nothing
  | cons q rest =>
    refine ((h q rest hnested).bind (Q := fun _ => True) (F := fun _ => False)
      fun type htype => ?_).congr fun e => by simp
    obtain ⟨s, rfl⟩ := htype
    have hparentheses : (Expression.text s).parenthesize =
        .ok (.text (Expression.parenthesizeText s)) := rfl
    split
    · exact ((Meets.lift hparentheses).bind fun type _ =>
        Meets.done _).congr fun e => by simp
    · exact Meets.done _

/-- The signature of a function type. -/
structure Schema.IsSignatureOf (scope : Scope) (ps : List Parameter) (r : Option Node)
    (s : Signature) : Prop where
  name : s.name = .str ""
  inputs : s.inputs = ps.map (Parameter.input scope)
  output : s.output = compileOutput scope r

/-- What a call by itself leads to: a convention that is not known is reported, and the type of the
result leads to something. -/
def Schema.CallLeadsTo (scope : Scope) (ps : List Parameter) (r : Option Node) (async : Json)
    (e : Event) : Prop :=
  e = .warning (.unknownConvention (.str "") async scope.current) ∧ ¬ KnownConvention ps async ∨
    ∃ m, ShowsResult ps r async m ∧ m.LeadsTo scope e

/-- Callers see these parameters. -/
def CallShape.Shows (scope : Scope) (ps : List Parameter) (shape : CallShape) : Prop :=
  shape.inputs = ps.map (Parameter.input scope)

theorem shows_meets {ps : List Parameter} {returns : Expression} {inputs : List Input}
    (h : inputs = ps.map (Parameter.input scope)) :
    (return ⟨returns, inputs⟩ : Outcome CallShape).Meets (CallShape.Shows scope ps)
      fun _ => False :=
  Meets.pure h

theorem unknown_meets {ps : List Parameter} {r : Option Node} {async : Json}
    (hunknown : ¬ KnownConvention ps async) (hresult : ∀ m, ¬ ShowsResult ps r async m) :
    (do
      Outcome.warn (.unknownConvention (.str "") async scope.current)
      return ⟨Signature.untypedPromise, []⟩ : Outcome CallShape).Meets (CallShape.Shows scope [])
        (Schema.CallLeadsTo scope ps r async) := by
  exact ((Meets.warn _).bind fun _ _ => shows_meets List.map_nil.symm).congr fun e => by
    simp [Schema.CallLeadsTo, hunknown, hresult]

/-- A callback that no parameter is has no result, and is not known. -/
theorem not_known_of_forall {ps : List Parameter} {name : String}
    (h : ¬ ∃ p ∈ ps, p.name = .str name) :
    ¬ KnownConvention ps (.str name) ∧ ∀ r m, ¬ ShowsResult ps r (.str name) m := by
  constructor
  · intro hknown
    cases hknown with
    | callback hexists => exact h hexists
  · intro r m hresult
    cases hresult with
    | callback hfirst _ => exact h ⟨_, hfirst.mem, hfirst.1⟩

theorem callback_meets {ps : List Parameter} {r : Option Node} {name : String} {p : Parameter}
    (hfirst : Parameter.IsFirst name ps p)
    (h : ∀ m, ShowsResult ps r (.str name) m → m.Compiles scope) :
    (do
      let value ← Signature.resolvedType (p.input scope)
      return ⟨Signature.promise value,
        (ps.map (Parameter.input scope)).filter fun p => !p.isNamed name⟩ : Outcome CallShape).Meets
        (CallShape.Shows scope (visible ps (.str name)))
        (Schema.CallLeadsTo scope ps r (.str name)) := by
  have hexists : ∃ p ∈ ps, p.name = .str name := ⟨p, hfirst.mem, hfirst.1⟩
  have hvisible : (ps.map (Parameter.input scope)).filter (fun p => !p.isNamed name) =
      (visible ps (.str name)).map (Parameter.input scope) := by
    rw [visible, if_pos hexists, List.filter_map]
    rfl
  have hresolved := resolvedType_meets fun q rest hnested => h q.node (.callback hfirst hnested)
  refine (hresolved.bind fun value _ => shows_meets hvisible).congr fun e => ?_
  have hknown : KnownConvention ps (.str name) := .callback hexists
  simp only [Schema.CallLeadsTo, hknown, not_true, and_false, false_or, or_false]
  constructor
  · rintro ⟨q, rest, hnested, he⟩
    exact ⟨q.node, .callback hfirst hnested, he⟩
  · rintro ⟨m, hm, he⟩
    cases hm with
    | callback hfirst' hnested =>
      -- there is only one first parameter
      obtain rfl := Option.some.inj
        ((Parameter.isFirst_iff.mp hfirst).symm.trans (Parameter.isFirst_iff.mp hfirst'))
      exact ⟨_, _, hnested, he⟩

theorem direct_meets {ps : List Parameter} {r : Option Node}
    (h : ∀ m, ShowsResult ps r (.bool false) m → m.Compiles scope) :
    (do return ⟨← compileOutput scope r, ps.map (Parameter.input scope)⟩ :
      Outcome CallShape).Meets (CallShape.Shows scope ps)
        (Schema.CallLeadsTo scope ps r (.bool false)) := by
  have houtput := compileOutput_meets (r := r) fun m hm harray => h m (.returns hm harray)
  refine (houtput.bind fun returns _ => shows_meets rfl).congr fun e => ?_
  -- the convention itself raises nothing
  have hknown : KnownConvention ps (.bool false) := .direct
  simp only [Schema.CallLeadsTo, hknown, not_true, and_false, false_or, or_false]
  constructor
  · rintro ⟨m, hm, harray, he⟩
    exact ⟨m, .returns hm harray, he⟩
  · rintro ⟨m, ⟨hm, harray⟩, he⟩
    exact ⟨m, hm, harray, he⟩

/-- **What callers see of a function** leads to what the type of its result leads to. A convention
that is not known is reported. -/
theorem callShape_meets {ps : List Parameter} {r : Option Node} {s : Signature}
    (hs : Schema.IsSignatureOf scope ps r s)
    (h : ∀ m, ShowsResult ps r s.async m → m.Compiles scope) :
    (s.callShape scope.current).Meets (CallShape.Shows scope (visible ps s.async))
      (Schema.CallLeadsTo scope ps r s.async) := by
  unfold Signature.callShape
  rw [hs.inputs, hs.output, hs.name]
  generalize s.async = async at h ⊢
  -- the conventions: the result itself, a promise, a callback of a name, and anything else
  rcases async with (_ | (_ | _) | _ | _ | name) | vs | gs
  case scalar.bool.false => exact direct_meets h
  case scalar.bool.true =>
    have hresult : ∀ m, ¬ ShowsResult ps r (.bool true) m := nofun
    have hknown : KnownConvention ps (.bool true) := .promise
    exact (shows_meets rfl).congr fun e => by simp [Schema.CallLeadsTo, hknown, hresult]
  case scalar.str =>
    by_cases hexists : ∃ p ∈ ps, p.name = .str name
    · obtain ⟨p, hfirst⟩ := Parameter.exists_isFirst hexists
      have hfind : (ps.map (Parameter.input scope)).find? (Input.isNamed name) =
          some (p.input scope) := by
        rw [List.find?_map]
        exact congrArg (Option.map _) (Parameter.isFirst_iff.mp hfirst)
      simp only [Convention.of, hfind]
      exact callback_meets hfirst h
    · have hfind : (ps.map (Parameter.input scope)).find? (Input.isNamed name) = none := by
        rw [List.find?_map, Option.map_eq_none_iff, List.find?_eq_none]
        intro p hp hname
        exact hexists ⟨p, hp, beq_iff_eq.mp hname⟩
      -- no parameter has the name of the callback, so the convention is not known after all
      have hvisible : visible ps (.str name) = [] := if_neg hexists
      simp only [Convention.of, hfind, hvisible]
      exact unknown_meets (not_known_of_forall hexists).1 ((not_known_of_forall hexists).2 r)
  all_goals exact unknown_meets nofun nofun

/-- **A function type** leads to what its call leads to and to what the parameters that callers see
lead to. -/
theorem type_meets {ps : List Parameter} {r : Option Node} {s : Signature}
    (hs : Schema.IsSignatureOf scope ps r s)
    (hresult : ∀ m, ShowsResult ps r s.async m → m.Compiles scope)
    (hvisible : ∀ p ∈ visible ps s.async, p.node.Compiles scope) :
    (s.type scope.current).Meets (fun _ => True) fun e =>
      Schema.CallLeadsTo scope ps r s.async e ∨ ∃ p ∈ visible ps s.async, p.LeadsTo scope e := by
  refine Meets.map (P := fun _ => True) ?_ fun _ _ => trivial
  unfold Signature.lines
  refine (callShape_meets hs hresult).bind fun shape hshape => ?_
  -- neither a name nor a comment is written
  have hrenamed : Signature.isRenamed Signature.Style.inline s.name = .ok false := rfl
  have hcomment : s.comment Signature.Style.inline shape = .ok [] := rfl
  have hoverloads : shape.overloads = (Overload.lists Parameter.optional
      (visible ps s.async)).map (List.map (Parameter.input scope)) := by
    rw [CallShape.overloads, hshape]
    exact Overload.lists_map (Parameter.input scope) Input.optional _
  have hlists : ∀ l ∈ Overload.lists Parameter.optional (visible ps s.async), ∀ p ∈ l,
      p.node.Compiles scope := fun l hl p hp =>
    hvisible p ((Overload.sublist_of_mem_lists hl).subset hp)
  rw [hoverloads]
  exact ((Meets.lift hrenamed).bind fun renamed _ =>
    (Meets.lift hcomment).bind fun doc _ =>
      (renderEach_meets hlists).bind fun overloads _ =>
        Meets.done _).congr fun e => by
    simp only [false_or, or_false, exists_mem_lists_iff]

theorem leadsTo_function {i : Schema.Info} {ps : List Parameter} {r : Option Node} {async : Json}
    {e : Event} : Node.LeadsTo scope ⟨i, .function ps r async⟩ e ↔
      Schema.CallLeadsTo scope ps r async e ∨ ∃ p ∈ visible ps async, p.LeadsTo scope e := by
  rw [Node.leadsTo_iff]
  constructor
  · rintro (hcauses | ⟨m, hm, he⟩)
    · cases e with
      | warning w =>
        cases hcauses with
        | unknownConvention h => exact .inl (.inl ⟨rfl, h⟩)
      -- compiling stops at a parameter that is shown and has no name to write
      | stop =>
        cases hcauses with
        | intro hp hname => exact .inr ⟨_, hp, .inl ⟨rfl, hname⟩⟩
    · cases hm with
      | parameter hp => exact .inr ⟨_, hp, .inr he⟩
      | result hresult => exact .inl (.inr ⟨m, hresult, he⟩)
  · rintro ((⟨rfl, h⟩ | ⟨m, hresult, he⟩) | ⟨p, hp, ⟨rfl, hname⟩ | he⟩)
    · exact .inl (.unknownConvention h)
    · exact .inr ⟨m, .result hresult, he⟩
    · exact .inl (.intro hp hname)
    · exact .inr ⟨p.node, .parameter hp, he⟩

theorem compiles_function (i : Schema.Info) (ps : List Parameter) (r : Option Node) (async : Json)
    (h : ∀ m, Node.Shows ⟨i, .function ps r async⟩ m → m.Compiles scope) :
    Node.Compiles scope ⟨i, .function ps r async⟩ := by
  unfold Node.Compiles Node.expression
  rw [compile]
  refine (Meets.map (type_meets ⟨rfl, compileInputs_eq_map scope ps, rfl⟩
    (fun m hm => h m (.result hm)) fun p hp => h p.node (.parameter hp))
    fun s _ => ⟨s, rfl⟩).congr fun e => leadsTo_function.symm

/-! ## All nodes -/

/-- A node of which nothing can be said but its text. -/
theorem compiles_text {n : Node} {s : String} (h : n.expression scope = return .text s)
    (hcauses : ∀ e, ¬ n.Causes scope e) (hshows : ∀ m, ¬ n.Shows m) : n.Compiles scope := by
  unfold Node.Compiles
  rw [h]
  exact (Meets.pure ⟨s, rfl⟩).congr fun e =>
    iff_of_false id (Node.not_leadsTo (hcauses e) hshows)

theorem compiles_array (i : Schema.Info) (items : Option Node)
    (h : ∀ m, Node.Shows ⟨i, .array items⟩ m → m.Compiles scope) :
    Node.Compiles scope ⟨i, .array items⟩ := by
  unfold Node.Compiles Node.expression
  cases items with
  | none =>
    rw [compile]
    refine ((Meets.warn _).bind fun _ _ => Meets.pure
      (P := Expression.IsText) ⟨_, rfl⟩).congr fun e => ?_
    rw [or_false, Node.leadsTo_iff]
    constructor
    · rintro rfl
      exact .inl .arrayWithoutItems
    · rintro (hcauses | ⟨m, hm, -⟩)
      · cases e with
        | warning w =>
          cases hcauses with
          | arrayWithoutItems => rfl
        | stop => cases hcauses
      · cases hm
  | some m =>
    rw [compile]
    -- an array that has items raises nothing itself
    have hcauses : ∀ e, ¬ Node.Causes scope ⟨i, .array (some m)⟩ e := by
      rintro (w | _) h <;> cases h
    refine ((h m .items).bind fun type _ => Meets.pure (P := Expression.IsText) ?_).congr
      fun e => ?_
    · unfold Expression.array
      split <;> exact ⟨_, rfl⟩
    · rw [or_false, Node.leadsTo_iff_of_not_causes (hcauses e)]
      constructor
      · exact fun he => ⟨m, .items, he⟩
      · rintro ⟨k, hk, he⟩
        cases hk
        exact he

theorem compiles_choice (i : Schema.Info) (options : List Node)
    (h : ∀ m, Node.Shows ⟨i, .choice options⟩ m → m.Compiles scope) :
    Node.Compiles scope ⟨i, .choice options⟩ := by
  -- a choice raises nothing itself, so all it leads to is inside its options
  have hcauses : ∀ e, ¬ Node.Causes scope ⟨i, .choice options⟩ e := by
    rintro (w | _) h <;> cases h
  have hoptions := compileOptions_meets fun m hm => h m (.option hm)
  unfold Node.Compiles Node.expression
  rw [compile]
  refine (hoptions.bind fun texts _ => Meets.pure (P := Expression.IsText)
    ⟨_, rfl⟩).congr fun e => ?_
  rw [or_false, Node.leadsTo_iff_of_not_causes (hcauses e)]
  constructor
  · rintro ⟨m, hm, he⟩
    exact ⟨m, .option hm, he⟩
  · rintro ⟨m, hm, he⟩
    cases hm with
    | option hm => exact ⟨m, hm, he⟩

theorem leadsTo_object {i : Schema.Info} {ps : Option (List Property)} {fs es : List Callable}
    {a : Option Node} {e : Event} : Node.LeadsTo scope ⟨i, .object ps fs es a⟩ e ↔
      (∃ p ∈ ps.getD [], p.node.info.unsupported = false ∧ p.node.LeadsTo scope e) ∨
        ∃ m, a = some m ∧ m.LeadsTo scope e := by
  -- an object type raises nothing itself
  have hcauses : ¬ Node.Causes scope ⟨i, .object ps fs es a⟩ e := by
    intro h
    cases e <;> cases h
  rw [Node.leadsTo_iff_of_not_causes hcauses]
  constructor
  · rintro ⟨m, hm, he⟩
    cases hm with
    | property hp hsupported => exact .inl ⟨_, hp, hsupported, he⟩
    | additional => exact .inr ⟨m, rfl, he⟩
  · rintro (⟨p, hp, hsupported, he⟩ | ⟨m, rfl, he⟩)
    · cases ps with
      | none => cases hp
      | some ps => exact ⟨p.node, .property hp hsupported, he⟩
    · exact ⟨m, .additional, he⟩

theorem compiles_object (i : Schema.Info) (ps : Option (List Property)) (fs es : List Callable)
    (a : Option Node) (h : ∀ m, Node.Shows ⟨i, .object ps fs es a⟩ m → m.Compiles scope) :
    Node.Compiles scope ⟨i, .object ps fs es a⟩ := by
  have hreturn : ∀ s, (return .text s : Outcome Expression).Meets Expression.IsText
      fun _ => False := fun s => Meets.pure ⟨s, rfl⟩
  unfold Node.Compiles Node.expression
  refine Meets.congr ?_ fun e => leadsTo_object.symm
  cases ps with
  -- functions and events of an object type are not compiled where it is written inline
  | some ps =>
    have hmembers := compileMembers_meets fun p hp hsupported =>
      h p.node (.property hp hsupported)
    have hindex := compileIndex_meets fun n (hn : a = some n) => h n (hn ▸ .additional)
    rw [compile]
    exact (hmembers.bind fun members _ => hindex.bind fun index _ => hreturn _).congr fun e => by
      simp
  | none =>
    cases a with
    | none =>
      rw [compile]
      exact (hreturn "object").congr fun e => by simp
    | some m =>
      rw [compile]
      exact ((h m .additional).bind fun type _ => hreturn _).congr fun e => by simp

/-- **A node compiles if all nodes that are written out in it do**, and a reference is a text. -/
theorem compiles_of_shows {n : Node} (href : ∀ target, n.shape = .reference target →
      target.isText = true) (h : ∀ m, n.Shows m → m.Compiles scope) : n.Compiles scope := by
  obtain ⟨i, shape⟩ := n
  cases shape with
  | reference target =>
    obtain ⟨ref, rfl⟩ := Json.exists_str_of_isText (href target rfl)
    exact compiles_reference i ref
  | array items => exact compiles_array i items h
  | choice options => exact compiles_choice i options h
  | function ps r async => exact compiles_function i ps r async h
  | object ps fs es a => exact compiles_object i ps fs es a h
  | _ =>
    refine compiles_text (by rw [Node.expression, compile]) ?_ ?_
    · rintro (w | _) hcauses <;> cases hcauses
    · intro m hm
      cases hm

/-- **Every node compiles whose references are texts**, those of them that are written out. -/
theorem compiles (n : Node) (href : ∀ m, n.Rendered m → ∀ target, m.shape = .reference target →
      target.isText = true) : n.Compiles scope :=
  compiles_of_shows (href n .refl) fun m hm =>
    compiles m fun k hk => href k (.head hm hk)
termination_by sizeOf n
decreasing_by exact hm.sizeOf_lt

end Compiling

/-! ## Well typed nodes -/

namespace Schema

theorem Parameter.nodes_subset {p : Parameter} {ps : List Parameter} (h : p ∈ ps) :
    p.node.nodes ⊆ Parameter.nodesList ps := by
  rw [Parameter.nodesList_eq]
  exact fun _ hm => List.mem_flatMap.mpr ⟨p, h, hm⟩

theorem Node.subset_nodes {i : Info} {shape : Shape} {ns : List Node} (h : ns ⊆ shape.nodes) :
    ns ⊆ Node.nodes ⟨i, shape⟩ := by
  rw [Node.nodes]
  exact List.subset_cons_of_subset _ h

theorem Parameter.subset_nodes {i : Info} {ps : List Parameter} {r : Option Node} {async : Json}
    {p : Parameter} (h : p ∈ ps) : p.node.nodes ⊆ Node.nodes ⟨i, .function ps r async⟩ := by
  refine Node.subset_nodes ?_
  rw [Shape.nodes]
  exact List.Subset.trans (Parameter.nodes_subset h) (List.subset_append_left _ _)

theorem Parameter.nested_subset {p q : Parameter} (h : q ∈ p.nested) :
    q.node.nodes ⊆ p.node.nodes := by
  obtain ⟨name, i, shape⟩ := p
  cases shape with
  | function parameters returns async => exact Parameter.subset_nodes h
  | _ => cases h

/-- What is written out in a node is inside it. -/
theorem Node.Shows.nodes_subset {n m : Node} (h : n.Shows m) : m.nodes ⊆ n.nodes := by
  cases h with
  | items =>
    refine Node.subset_nodes ?_
    rw [Shape.nodes, Node.nodesOption]
    exact List.Subset.refl _
  | option hm =>
    refine Node.subset_nodes ?_
    rw [Shape.nodes]
    exact Node.nodes_subset hm
  | property hp _ =>
    refine Node.subset_nodes ?_
    rw [Shape.nodes_object, List.append_assoc, List.append_assoc]
    exact List.Subset.trans (Property.nodes_subset hp) (List.subset_append_left _ _)
  | additional =>
    refine Node.subset_nodes ?_
    rw [Shape.nodes_object, Node.nodesOption]
    exact List.subset_append_right _ _
  | parameter hp => exact Parameter.subset_nodes (mem_of_mem_visible hp)
  | result hm =>
    cases hm with
    | returns hreturns _ =>
      subst hreturns
      refine Node.subset_nodes ?_
      rw [Shape.nodes, Node.nodesOption]
      exact List.subset_append_right _ _
    -- a parameter of a parameter, two levels down
    | callback hfirst hnested =>
      have hq := Parameter.nested_subset (hnested ▸ List.mem_cons_self)
      exact List.Subset.trans hq (Parameter.subset_nodes hfirst.mem)

theorem Node.Rendered.mem_nodes {n m : Node} (h : n.Rendered m) : m ∈ n.nodes := by
  induction h using ReflTransGen.head_induction_on with
  | refl => exact Node.self_mem_nodes m
  | head hshows _ ih => exact hshows.nodes_subset ih

/-- In a well typed node all references are texts. -/
theorem Node.isText_of_typed {n : Node} (h : Typed n.nodes) : ∀ m, n.Rendered m →
    ∀ target, m.shape = .reference target → target.isText = true := by
  intro m hm target htarget
  obtain ⟨-, hshape⟩ := Bool.and_eq_true_iff.mp (h m hm.mem_nodes)
  rw [htarget] at hshape
  exact hshape

/-- All functions of a well typed node can be written. -/
theorem Node.not_unwritable_of_typed {n : Node} (h : Typed n.nodes) :
    ∀ m, n.Rendered m → ¬ m.Unwritable := by
  rintro m hm ⟨hp, hname⟩
  obtain ⟨-, hshape⟩ := Bool.and_eq_true_iff.mp (h _ hm.mem_nodes)
  have hnames := List.all_eq_true.mp (Bool.and_eq_true_iff.mp hshape).2
  rw [Json.isComposite_of_isWord (hnames _ (mem_of_mem_visible hp))] at hname
  cases hname

/-! ## All nodes whose references are texts -/

/--
**Warnings are sound, and complete as long as names can be looked up.**

Let the references that are written out with a node be texts. Then each warning that compiling it
raises is one that some node raises by itself that is written out with it. If a function is among
these nodes of which callers would see a parameter whose name is a list or an object, compiling
stops there. If there is none, the node compiles to a text, and all these warnings are raised.
-/
theorem Node.expression_raises_exactly {scope : Scope} {n : Node}
    (href : ∀ m, n.Rendered m → ∀ target, m.shape = .reference target → target.isText = true) :
    (∀ w ∈ (n.expression scope).warnings, ∃ m, n.Rendered m ∧ m.Raises scope w) ∧
    ((∃ m, n.Rendered m ∧ m.Unwritable) →
      (n.expression scope).result = .error .compositeKey) ∧
    ((∀ m, n.Rendered m → ¬ m.Unwritable) →
      (∃ s, (n.expression scope).result = .ok (.text s)) ∧
      ∀ w, w ∈ (n.expression scope).warnings ↔ ∃ m, n.Rendered m ∧ m.Raises scope w) := by
  have hcompiles : n.Compiles scope := compiles n href
  -- the warnings are those that nodes lead to, and no node leads to a stop
  refine ⟨hcompiles.sound, hcompiles.stops, fun hwritable => ?_⟩
  have hgoes : ¬ n.LeadsTo scope .stop := by
    rintro ⟨m, hm, hstop⟩
    exact hwritable m hm hstop
  obtain ⟨⟨type, htype, s, rfl⟩, hall⟩ := hcompiles.goes hgoes
  exact ⟨⟨s, htype⟩, fun w => ⟨hcompiles.sound w, hall w⟩⟩

/-- A function that hands over a reference that nothing declares, and takes an array without items,
and whose convention is known. The property of the array's neighbour that is not supported is not
written out. -/
def Node.lookup : Node :=
  ⟨{}, .function
    [⟨.str "ids", ⟨{}, .array none⟩⟩,
      ⟨.str "options", ⟨{}, .object (some
        [⟨"old", ⟨{ unsupported := true }, .reference (.str "Gone")⟩⟩]) [] [] none⟩⟩,
      ⟨.str "done", ⟨{}, .function [⟨.str "found", ⟨{}, .reference (.str "Found")⟩⟩] none
        (.str "nobody")⟩⟩]
    none (.str "done")⟩

theorem Node.expression_raises_exactly_lookup :
    (Node.lookup.expression ⟨"menus", .empty⟩).warnings =
        [.unresolvedReference (.str "Found") "menus", .arrayWithoutItems .null "menus"] ∧
      ∀ w, w ∈ (Node.lookup.expression ⟨"menus", .empty⟩).warnings ↔
        ∃ m, Node.lookup.Rendered m ∧ m.Raises ⟨"menus", .empty⟩ w := by
  have htyped : Typed Node.lookup.nodes := by
    unfold Typed
    decide
  obtain ⟨-, -, hcomplete⟩ := @Node.expression_raises_exactly ⟨"menus", .empty⟩ Node.lookup
    (Node.isText_of_typed htyped)
  exact ⟨by cbv, (hcomplete (Node.not_unwritable_of_typed htyped)).2⟩

/-- A function with a parameter whose name is a list, and a reference behind it. -/
def Node.listNamed : Node :=
  ⟨{}, .function [⟨.arr [.str "x"], ⟨{}, .string none⟩⟩,
    ⟨.str "y", ⟨{}, .reference (.str "Nope")⟩⟩] none (.bool false)⟩

/-- A reference that nothing declares is not reported if compiling stops before. -/
theorem Node.warnings_incomplete :
    ¬ ∀ (scope : Scope) (n : Node),
      (∀ m ∈ n.nodes, ∀ target, m.shape = .reference target → target.isText = true) →
      ∀ w, w ∈ (n.expression scope).warnings ↔ ∃ m, n.Rendered m ∧ m.Raises scope w := by
  intro h
  have href : ∀ m ∈ Node.listNamed.nodes, ∀ target, m.shape = .reference target →
      target.isText = true := by
    intro m hm target htarget
    rcases List.mem_cons.mp hm with rfl | hm
    · cases htarget
    · rcases List.mem_cons.mp hm with rfl | hm
      · cases htarget
      · obtain rfl := List.mem_singleton.mp hm
        cases htarget
        rfl
  have hrendered : Node.listNamed.Rendered ⟨{}, .reference (.str "Nope")⟩ :=
    .single (.parameter (p := ⟨.str "y", ⟨{}, .reference (.str "Nope")⟩⟩)
      (List.mem_cons_of_mem _ List.mem_cons_self))
  have hraises : Node.Raises ⟨"a", .empty⟩ ⟨{}, .reference (.str "Nope")⟩
      (.unresolvedReference (.str "Nope") "a") := .unresolved (by decide) nofun
  have hmem := (h ⟨"a", .empty⟩ Node.listNamed href _).mpr ⟨_, hrendered, hraises⟩
  -- the parameter in front has a list for a name, and compiling stops there
  have hnone : (Node.listNamed.expression ⟨"a", .empty⟩).warnings = [] := by cbv
  rw [hnone] at hmem
  cases hmem

end Schema

end Typings
