import Mathlib.Logic.Basic
import Typings.Json.Basic
import Typings.Proofs.BareChoices

/-!
# The grammar of schema documents

What a document has to be like, told without reading it. An object is a type in the first of ten
ways that applies to it, and the way decides which of its fields are looked at: whatever stands in
the others does no harm. Some fields may be `null` where others may only be left out.

The documents that are read are exactly those of the grammar. The flaws of a value are the
bridge: reading ends well if there are none, and a value without flaws is one that the grammar
derives, construct by construct.

The grammar is a family of inductive predicates that refer to each other, because types have
parameters and parameters are types. The proof follows the recursion on JSON values instead: it is
one mutual induction with a theorem for each function that lists flaws, and each theorem says that
its list is empty exactly if the grammar derives the value.
-/

namespace Typings.Schema

open Json (Fields field field? hasField)

/-! ## How an object is a type -/

/-- The ways in which an object can be a type. -/
inductive Way where
  | reference | number | text | array | boolean | choice | function | any | object
  /-- A bare value, or a type that means nothing here. -/
  | other
  deriving DecidableEq, Repr

namespace Way

/-- Does a way apply to an object with these fields? -/
def Applies (fields : Fields) : Way → Prop
  | reference => hasField "$ref" fields = true
  | number => field "type" fields = .str "integer" ∨ field "type" fields = .str "number"
  | text => field "type" fields = .str "string" ∨ field "type" fields = .str "url"
  | array => field "type" fields = .str "array"
  | boolean => field "type" fields = .str "boolean"
  | choice => (field "choices" fields).isSet = true
  | function => field "type" fields = .str "function"
  | any => field "type" fields = .str "any"
  | object =>
    field "type" fields = .str "object" ∨ field "type" fields = .null ∧
      (hasField "properties" fields = true ∨ hasField "functions" fields = true ∨
        hasField "events" fields = true)
  | other => True

instance (fields : Fields) : (way : Way) → Decidable (way.Applies fields)
  | reference => inferInstanceAs (Decidable (_ = true))
  | number => inferInstanceAs (Decidable (_ ∨ _))
  | text => inferInstanceAs (Decidable (_ ∨ _))
  | array => inferInstanceAs (Decidable (_ = Json.str "array"))
  | boolean => inferInstanceAs (Decidable (_ = Json.str "boolean"))
  | choice => inferInstanceAs (Decidable (_ = true))
  | function => inferInstanceAs (Decidable (_ = Json.str "function"))
  | any => inferInstanceAs (Decidable (_ = Json.str "any"))
  | object => inferInstanceAs (Decidable (_ ∨ _ ∧ (_ ∨ _ ∨ _)))
  | other => inferInstanceAs (Decidable True)

/-- The order in which the ways are tried. -/
def order : List Way :=
  [reference, number, text, array, boolean, choice, function, any, object, other]

/-- The first way that applies. -/
def first (fields : Fields) : Way := (order.find? (Applies fields ·)).getD other

end Way

/-! ## The grammar -/

/-- A list whose items are all of this kind. -/
inductive ListOf (P : Json → Prop) : Json → Prop
  | intro {vs : List Json} (items : ∀ v ∈ vs, P v) : ListOf P (.arr vs)

/-- An object whose values are all of this kind. -/
inductive ObjectOf (P : Json → Prop) : Json → Prop
  | intro {fields : Fields} (values : ∀ f ∈ fields, P f.2) : ObjectOf P (.obj fields)

/-- `null`, or a value of this kind. -/
inductive NullOr (P : Json → Prop) : Json → Prop
  | null : NullOr P .null
  | other {v : Json} (h : P v) : NullOr P v

/-- A listed member is anything but an object without a name. -/
def IsMember (v : Json) : Prop := ∀ fields, v = .obj fields → hasField "name" fields = true

mutual

/-- A type is an object that has what its way asks for. -/
inductive IsType : Json → Prop
  | intro {fields : Fields} (h : Fits fields (Way.first fields)) : IsType (.obj fields)

/-- What the fields of an object have to be if it is a type in this way. A field that is not named
may be anything. -/
inductive Fits : Fields → Way → Prop
  | reference {fields : Fields} : Fits fields .reference
  | number {fields : Fields} : Fits fields .number
  | text {fields : Fields}
      (enum : ∀ vs, field? "enum" fields = some (.arr vs) → ∀ v ∈ vs, IsMember v) :
      Fits fields .text
  | array {fields : Fields} (items : ∀ v, field? "items" fields = some v → IsType v) :
      Fits fields .array
  | boolean {fields : Fields} : Fits fields .boolean
  | choice {fields : Fields}
      (choices : ∀ v, field? "choices" fields = some v → ListOf IsType v) : Fits fields .choice
  | function {fields : Fields}
      (parameters : ∀ v, field? "parameters" fields = some v → NullOr (ListOf IsParameter) v)
      (returns : ∀ v, field? "returns" fields = some v → IsType v) : Fits fields .function
  | any {fields : Fields} : Fits fields .any
  | object {fields : Fields}
      (properties : ∀ v, field? "properties" fields = some v → ObjectOf IsType v)
      (additional : ∀ v, field? "additionalProperties" fields = some v →
        ∀ gs, v = .obj gs → IsType v)
      (functions : ∀ v, field? "functions" fields = some v → NullOr (ListOf IsFunction) v)
      (events : ∀ v, field? "events" fields = some v → NullOr (ListOf IsFunction) v) :
      Fits fields .object
  | other {fields : Fields} : Fits fields .other

/-- A parameter is a type with a name. -/
inductive IsParameter : Json → Prop
  | intro {fields : Fields} (name : hasField "name" fields = true)
      (type : IsType (.obj fields)) : IsParameter (.obj fields)

/-- A function, or an event. -/
inductive IsFunction : Json → Prop
  | intro {fields : Fields} (name : hasField "name" fields = true)
      (parameters : ∀ v, field? "parameters" fields = some v → NullOr (ListOf IsParameter) v)
      (returns : ∀ v, field? "returns" fields = some v → IsType v) : IsFunction (.obj fields)

end

/-- What one document says about one namespace. -/
inductive IsRecord : Json → Prop
  | intro {fields : Fields} {name : String}
      (namespaceName : field? "namespace" fields = some (.str name))
      (properties : ∀ v, field? "properties" fields = some v → ObjectOf IsType v)
      (functions : ∀ v, field? "functions" fields = some v → NullOr (ListOf IsFunction) v)
      (events : ∀ v, field? "events" fields = some v → NullOr (ListOf IsFunction) v)
      (types : ∀ v, field? "types" fields = some v → NullOr (ListOf IsType) v) :
      IsRecord (.obj fields)

/-- A document is a list of records. -/
def IsDocument (v : Json) : Prop := ListOf IsRecord v

/-! ## Lists, objects and fields -/

section Kinds

variable {P : Json → Prop}

theorem listOf_arr {vs : List Json} : ListOf P (.arr vs) ↔ ∀ v ∈ vs, P v :=
  ⟨fun ⟨items⟩ => items, .intro⟩

theorem objectOf_obj {fields : Fields} : ObjectOf P (.obj fields) ↔ ∀ f ∈ fields, P f.2 :=
  ⟨fun ⟨values⟩ => values, .intro⟩

theorem nullOr_arr {vs : List Json} : NullOr (ListOf P) (.arr vs) ↔ ∀ v ∈ vs, P v := by
  constructor
  · intro h
    cases h with
    | other h => exact listOf_arr.mp h
  · intro h
    exact .other (.intro h)

theorem not_nullOr {v : Json} (hnull : v ≠ .null) (harr : ∀ vs, v ≠ .arr vs) :
    ¬ NullOr (ListOf P) v := by
  rintro (_ | ⟨⟨items⟩⟩)
  · exact hnull rfl
  · exact harr _ rfl

/-- What a field has to be is said of the first field of that name. -/
theorem forall_field?_cons {key k : String} {v : Json} {fields : Fields} :
    (∀ w, field? key ((k, v) :: fields) = some w → P w) ↔
      if k = key then P v else ∀ w, field? key fields = some w → P w := by
  rw [field?_cons]
  split
  · simp only [Option.some.injEq, forall_eq']
  · rfl

theorem forall_field?_nil {key : String} : ∀ w, field? key [] = some w → P w := by
  intro w hw
  cases hw

/-- Flaws that depend on a condition. -/
theorem ite_eq_nil {c p q : Prop} [Decidable c] {flaws flaws' : List Flaw}
    (h : flaws = [] ↔ p) (h' : flaws' = [] ↔ q) :
    (if c then flaws else flaws') = [] ↔ if c then p else q := by
  split
  · exact h
  · exact h'

theorem cons_eq_nil {flaw : Flaw} {flaws : List Flaw} {p : Prop} (h : ¬ p) :
    flaw :: flaws = [] ↔ p :=
  iff_of_false (List.cons_ne_nil _ _) h

end Kinds

/-! ## The first way, one after the other -/

namespace Way

theorem getD_find?_cons {p : Way → Prop} [DecidablePred p] (way default : Way) (ways : List Way) :
    ((way :: ways).find? (p ·)).getD default =
      if p way then way else (ways.find? (p ·)).getD default := by
  rw [List.find?_cons]
  by_cases h : p way
  · rw [if_pos h, decide_eq_true h]
    rfl
  · rw [if_neg h, decide_eq_false h]

theorem first_eq_ite (fields : Fields) :
    first fields =
      if reference.Applies fields then reference
      else if number.Applies fields then number
      else if text.Applies fields then text
      else if array.Applies fields then array
      else if boolean.Applies fields then boolean
      else if choice.Applies fields then choice
      else if function.Applies fields then function
      else if any.Applies fields then any
      else if object.Applies fields then object
      else other := by
  simp only [first, order, getD_find?_cons, List.find?_nil, Option.getD_none, ite_self]

/-- The flaws of an object that is a type in this way. -/
def flaws (fields : Fields) : Way → List Flaw
  | text => enumFlaws fields
  | array => Node.flawsOf "items" fields
  | choice => Node.choiceFlaws fields
  | function => Parameter.listFlaws fields ++ Node.flawsOf "returns" fields
  | object =>
    Property.listFlaws fields ++ Node.additionalFlaws fields ++
      Callable.listFlaws "functions" fields ++ Callable.listFlaws "events" fields
  | _ => []

end Way

theorem typeWord_eq_some {fields : Fields} {word : String} :
    typeWord fields = some word ↔ field "type" fields = .str word := by
  unfold typeWord
  rcases field "type" fields with (_ | _ | _ | _ | s) | _ | _ <;> simp

theorem looksLikeObject_iff {fields : Fields} :
    looksLikeObject fields = true ↔ hasField "properties" fields = true ∨
      hasField "functions" fields = true ∨ hasField "events" fields = true := by
  rw [looksLikeObject, Bool.or_eq_true, Bool.or_eq_true, or_assoc]

theorem kind_beq_null {v : Json} : (v.kind == .null) = true ↔ v = .null := by
  rw [beq_iff_eq]
  exact ⟨Json.eq_null_of_kind, fun h => h ▸ rfl⟩

/-- The flaws of an object are those of the first way that applies to it. -/
theorem Node.flaws_obj (fields : Fields) :
    Node.flaws (.obj fields) = (Way.first fields).flaws fields := by
  rw [Node.flaws, Way.first_eq_ite]
  simp only [Bool.or_eq_true, Bool.and_eq_true, decide_eq_true_eq, typeWord_eq_some,
    looksLikeObject_iff, kind_beq_null, apply_ite (Way.flaws fields)]
  simp only [Way.Applies, Way.flaws]
  -- the two words for numbers are one way
  rw [← ite_or (field "type" fields = .str "integer")]
  rfl

theorem isType_obj {fields : Fields} : IsType (.obj fields) ↔ Fits fields (Way.first fields) :=
  ⟨fun ⟨h⟩ => h, .intro⟩

theorem isParameter_obj {fields : Fields} :
    IsParameter (.obj fields) ↔ hasField "name" fields = true ∧ IsType (.obj fields) :=
  ⟨fun ⟨name, type⟩ => ⟨name, type⟩, fun h => .intro h.1 h.2⟩

/-! ## A value of the grammar is one without flaws -/

theorem memberFlaws_eq_nil {vs : List Json} : memberFlaws vs = [] ↔ ∀ v ∈ vs, IsMember v := by
  induction vs with
  | nil => simp [memberFlaws]
  | cons v vs ih =>
    rw [List.forall_mem_cons, ← ih]
    cases v with
    | obj fields => cases h : hasField "name" fields <;> simp [memberFlaws, IsMember, h]
    | scalar s => simp [memberFlaws, IsMember]
    | arr items => simp [memberFlaws, IsMember]

theorem enumFlaws_eq_nil {fields : Fields} : enumFlaws fields = [] ↔
    ∀ vs, field? "enum" fields = some (.arr vs) → ∀ v ∈ vs, IsMember v := by
  unfold enumFlaws field
  rcases field? "enum" fields with _ | _ | vs | gs
  case some.arr => simp [memberFlaws_eq_nil]
  all_goals simp

theorem parameterFlaws_eq_nil {fields : Fields} :
    parameterFlaws (.obj fields) = [] ↔ hasField "name" fields = true := by
  cases h : hasField "name" fields <;> simp [parameterFlaws, h]

mutual

/-- **The types without flaws are those of the grammar.** -/
theorem Node.flaws_eq_nil : (v : Json) → (Node.flaws v = [] ↔ IsType v)
  | .obj fields => by
    have hitems := Node.flawsOf_eq_nil "items" fields
    have hreturns := Node.flawsOf_eq_nil "returns" fields
    have hchoices := Node.choiceFlaws_eq_nil fields
    have hparameters := Parameter.listFlaws_eq_nil fields
    have hproperties := Property.listFlaws_eq_nil fields
    have hadditional := Node.additionalFlaws_eq_nil fields
    have hfunctions := Callable.listFlaws_eq_nil "functions" fields
    have hevents := Callable.listFlaws_eq_nil "events" fields
    rw [Node.flaws_obj, isType_obj]
    -- the ways differ in the fields they look at
    cases Way.first fields with
    | reference => exact ⟨fun _ => .reference, fun _ => rfl⟩
    | number => exact ⟨fun _ => .number, fun _ => rfl⟩
    | text =>
      rw [Way.flaws, enumFlaws_eq_nil]
      exact ⟨.text, fun | .text enum => enum⟩
    | array =>
      rw [Way.flaws, hitems]
      exact ⟨.array, fun | .array items => items⟩
    | boolean => exact ⟨fun _ => .boolean, fun _ => rfl⟩
    | choice =>
      rw [Way.flaws, hchoices]
      exact ⟨.choice, fun | .choice choices => choices⟩
    | function =>
      rw [Way.flaws, List.append_eq_nil_iff, hparameters, hreturns]
      exact ⟨fun h => .function h.1 h.2,
        fun | .function parameters returns => ⟨parameters, returns⟩⟩
    | any => exact ⟨fun _ => .any, fun _ => rfl⟩
    | object =>
      rw [Way.flaws, List.append_eq_nil_iff, List.append_eq_nil_iff, List.append_eq_nil_iff,
        hproperties, hadditional, hfunctions, hevents]
      constructor
      · rintro ⟨⟨⟨properties, additional⟩, functions⟩, events⟩
        exact .object properties additional functions events
      · intro h
        cases h with
        | object properties additional functions events =>
          exact ⟨⟨⟨properties, additional⟩, functions⟩, events⟩
    | other => exact ⟨fun _ => .other, fun _ => rfl⟩
  | .scalar s => cons_eq_nil nofun
  | .arr items => cons_eq_nil nofun

theorem Node.flawsOf_eq_nil (key : String) : (fields : List (String × Json)) →
    (Node.flawsOf key fields = [] ↔ ∀ v, field? key fields = some v → IsType v)
  | [] => iff_of_true rfl forall_field?_nil
  | (k, v) :: fields => by
    rw [Node.flawsOf, forall_field?_cons]
    exact ite_eq_nil (Node.flaws_eq_nil v) (Node.flawsOf_eq_nil key fields)

theorem Node.flawsOfAll_eq_nil : (vs : List Json) →
    (Node.flawsOfAll vs = [] ↔ ∀ v ∈ vs, IsType v)
  | [] => by simp [Node.flawsOfAll]
  | v :: vs => by
    rw [Node.flawsOfAll, List.append_eq_nil_iff, List.forall_mem_cons, Node.flaws_eq_nil v,
      Node.flawsOfAll_eq_nil vs]

theorem Node.choiceFlaws_eq_nil : (fields : List (String × Json)) →
    (Node.choiceFlaws fields = [] ↔ ∀ v, field? "choices" fields = some v → ListOf IsType v)
  | [] => iff_of_true rfl forall_field?_nil
  | (k, v) :: fields => by
    rw [Node.choiceFlaws.eq_def, forall_field?_cons]
    refine ite_eq_nil ?_ (Node.choiceFlaws_eq_nil fields)
    rcases v with (_ | _ | _ | _ | _) | vs | gs
    case arr => exact (Node.flawsOfAll_eq_nil vs).trans listOf_arr.symm
    all_goals exact cons_eq_nil nofun

theorem Node.additionalFlaws_eq_nil : (fields : List (String × Json)) →
    (Node.additionalFlaws fields = [] ↔
      ∀ v, field? "additionalProperties" fields = some v → ∀ gs, v = .obj gs → IsType v)
  | [] => iff_of_true rfl forall_field?_nil
  | (k, v) :: fields => by
    rw [Node.additionalFlaws.eq_def, forall_field?_cons]
    refine ite_eq_nil ?_ (Node.additionalFlaws_eq_nil fields)
    cases v with
    | obj gs => exact (Node.flaws_eq_nil (.obj gs)).trans ⟨fun h _ _ => h, fun h => h gs rfl⟩
    | scalar s => exact iff_of_true rfl nofun
    | arr vs => exact iff_of_true rfl nofun

theorem Parameter.flawsOfAll_eq_nil : (vs : List Json) →
    (Parameter.flawsOfAll vs = [] ↔ ∀ v ∈ vs, IsParameter v)
  | [] => by simp [Parameter.flawsOfAll]
  | v :: vs => by
    have htype := Node.flaws_eq_nil v
    rw [Parameter.flawsOfAll, List.append_eq_nil_iff, List.append_eq_nil_iff,
      List.forall_mem_cons, Parameter.flawsOfAll_eq_nil vs, htype]
    refine and_congr_left fun _ => ?_
    cases v with
    | obj fields => rw [parameterFlaws_eq_nil, isParameter_obj]
    | scalar s => exact iff_of_false (fun h => List.cons_ne_nil _ _ h.1) nofun
    | arr items => exact iff_of_false (fun h => List.cons_ne_nil _ _ h.1) nofun

theorem Parameter.listFlaws_eq_nil : (fields : List (String × Json)) →
    (Parameter.listFlaws fields = [] ↔
      ∀ v, field? "parameters" fields = some v → NullOr (ListOf IsParameter) v)
  | [] => iff_of_true rfl forall_field?_nil
  | (k, v) :: fields => by
    rw [Parameter.listFlaws.eq_def, forall_field?_cons]
    refine ite_eq_nil ?_ (Parameter.listFlaws_eq_nil fields)
    rcases v with (_ | _ | _ | _ | _) | vs | gs
    case arr => exact (Parameter.flawsOfAll_eq_nil vs).trans nullOr_arr.symm
    case scalar.null => exact iff_of_true rfl .null
    all_goals exact cons_eq_nil (not_nullOr nofun nofun)

theorem Property.flawsOfAll_eq_nil : (fields : List (String × Json)) →
    (Property.flawsOfAll fields = [] ↔ ∀ f ∈ fields, IsType f.2)
  | [] => by simp [Property.flawsOfAll]
  | (k, v) :: fields => by
    rw [Property.flawsOfAll, List.append_eq_nil_iff, List.forall_mem_cons, Node.flaws_eq_nil v,
      Property.flawsOfAll_eq_nil fields]

theorem Property.listFlaws_eq_nil : (fields : List (String × Json)) →
    (Property.listFlaws fields = [] ↔
      ∀ v, field? "properties" fields = some v → ObjectOf IsType v)
  | [] => iff_of_true rfl forall_field?_nil
  | (k, v) :: fields => by
    rw [Property.listFlaws.eq_def, forall_field?_cons]
    refine ite_eq_nil ?_ (Property.listFlaws_eq_nil fields)
    cases v with
    | obj gs => exact (Property.flawsOfAll_eq_nil gs).trans objectOf_obj.symm
    | scalar s => exact cons_eq_nil nofun
    | arr vs => exact cons_eq_nil nofun

theorem Callable.flaws_eq_nil : (v : Json) → (Callable.flaws v = [] ↔ IsFunction v)
  | .obj fields => by
    have hparameters := Parameter.listFlaws_eq_nil fields
    have hreturns := Node.flawsOf_eq_nil "returns" fields
    rw [Callable.flaws, List.append_eq_nil_iff, List.append_eq_nil_iff, hparameters, hreturns]
    constructor
    -- no flaw of its own means that it has a name
    · rintro ⟨⟨hname, parameters⟩, returns⟩
      split at hname
      · exact .intro ‹_› parameters returns
      · cases hname
    · rintro ⟨hname, parameters, returns⟩
      exact ⟨⟨if_pos hname, parameters⟩, returns⟩
  | .scalar s => cons_eq_nil nofun
  | .arr items => cons_eq_nil nofun

theorem Callable.flawsOfAll_eq_nil : (vs : List Json) →
    (Callable.flawsOfAll vs = [] ↔ ∀ v ∈ vs, IsFunction v)
  | [] => by simp [Callable.flawsOfAll]
  | v :: vs => by
    rw [Callable.flawsOfAll, List.append_eq_nil_iff, List.forall_mem_cons,
      Callable.flaws_eq_nil v, Callable.flawsOfAll_eq_nil vs]

theorem Callable.listFlaws_eq_nil (key : String) : (fields : List (String × Json)) →
    (Callable.listFlaws key fields = [] ↔
      ∀ v, field? key fields = some v → NullOr (ListOf IsFunction) v)
  | [] => iff_of_true rfl forall_field?_nil
  | (k, v) :: fields => by
    rw [Callable.listFlaws.eq_def, forall_field?_cons]
    refine ite_eq_nil ?_ (Callable.listFlaws_eq_nil key fields)
    rcases v with (_ | _ | _ | _ | _) | vs | gs
    case arr => exact (Callable.flawsOfAll_eq_nil vs).trans nullOr_arr.symm
    case scalar.null => exact iff_of_true rfl .null
    all_goals exact cons_eq_nil (not_nullOr nofun nofun)

end

/-! ## Documents -/

theorem Node.typeFlaws_eq_nil {fields : Fields} : Node.typeFlaws fields = [] ↔
    ∀ v, field? "types" fields = some v → NullOr (ListOf IsType) v := by
  unfold Node.typeFlaws field
  -- types may be absent, null or a list, and any other value is a flaw
  rcases field? "types" fields with _ | (_ | _ | _ | _ | _) | vs | gs
  case none =>
    refine iff_of_true rfl ?_
    intro v hv
    cases hv
  case some.arr =>
    simp only [Option.getD_some, Option.some.injEq, forall_eq']
    exact (Node.flawsOfAll_eq_nil vs).trans nullOr_arr.symm
  case some.scalar.null =>
    simp only [Option.some.injEq, forall_eq']
    exact iff_of_true rfl .null
  all_goals
    simp only [Option.some.injEq, forall_eq']
    refine cons_eq_nil ?_
    intro h
    cases h with
    | other h => cases h

/-- **The records without flaws are those of the grammar.** -/
theorem Record.flaws_eq_nil (v : Json) : Record.flaws v = [] ↔ IsRecord v := by
  cases v with
  | scalar s => exact cons_eq_nil nofun
  | arr items => exact cons_eq_nil nofun
  | obj fields =>
    rw [Record.flaws, field]
    rcases hname : field? "namespace" fields with _ | (_ | _ | _ | _ | name) | vs | gs
    case some.scalar.str =>
      simp only [Option.getD_some, List.map_eq_nil_iff, Record.contentFlaws,
        List.append_eq_nil_iff, Property.listFlaws_eq_nil, Callable.listFlaws_eq_nil,
        Node.typeFlaws_eq_nil]
      constructor
      · rintro ⟨⟨⟨properties, functions⟩, events⟩, types⟩
        exact .intro hname properties functions events types
      · rintro ⟨-, properties, functions, events, types⟩
        exact ⟨⟨⟨properties, functions⟩, events⟩, types⟩
    -- without a text for the namespace there is a flaw, and no record
    all_goals
      refine cons_eq_nil ?_
      rintro ⟨hname', -⟩
      rw [hname] at hname'
      cases hname'

/-- **The documents without flaws are those of the grammar.** -/
theorem Record.listFlaws_eq_nil (v : Json) : Record.listFlaws v = [] ↔ IsDocument v := by
  cases v with
  | scalar s => exact cons_eq_nil nofun
  | obj fields => exact cons_eq_nil nofun
  | arr vs =>
    rw [Record.listFlaws, List.flatMap_eq_nil_iff, IsDocument, listOf_arr]
    exact forall₂_congr fun v _ => Record.flaws_eq_nil v

/-- Reading ends well exactly if there are no flaws. -/
theorem StopsAt.exists_eq_ok {α : Type} {r : Except Fault α} {flaws : List Flaw}
    (h : StopsAt r flaws) : (∃ a, r = .ok a) ↔ flaws = [] := by
  cases flaws with
  | nil => exact iff_of_true h rfl
  | cons flaw flaws =>
    refine iff_of_false ?_ (List.cons_ne_nil _ _)
    rintro ⟨a, rfl⟩
    cases h

instance : DecidablePred IsType := fun v => decidable_of_iff _ (Node.flaws_eq_nil v)
instance : DecidablePred IsFunction := fun v => decidable_of_iff _ (Callable.flaws_eq_nil v)
instance : DecidablePred IsRecord := fun v => decidable_of_iff _ (Record.flaws_eq_nil v)
instance : DecidablePred IsDocument := fun v => decidable_of_iff _ (Record.listFlaws_eq_nil v)

-- a reference may have anything beside it, which does harm in an array
example : IsType (.obj [("$ref", .str "Tab"), ("items", .int 5)]) := by decide
example : ¬ IsType (.obj [("type", .str "array"), ("items", .int 5)]) := by decide

/--
**The documents that are read are exactly those of the grammar.**

Whatever else a value may be, reading it ends with a refusal, or breaks off at choices that have no
parts.
-/
theorem Record.listOfJson_eq_ok_iff_isDocument (v : Json) :
    (∃ rs, Record.listOfJson v = .ok rs) ↔ IsDocument v :=
  (Record.stopsAt_listOfJson v).exists_eq_ok.trans (Record.listFlaws_eq_nil v)

end Typings.Schema
