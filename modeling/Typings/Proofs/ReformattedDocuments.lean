import Mathlib.Data.List.Forall2
import Typings.Json.Basic
import Typings.Proofs.KeyedLists
import Typings.Schema.OfJson

/-!
# Reformatted documents

A schema document can be laid out in many ways. The fields of a record, a function, a parameter, a
type or a member of an enumeration may come in any order, and beside fields that nothing looks at.
Other objects have no layout: where properties are listed every key is a name and the order is
kept, and a value that is taken as it is may be written out as it is.

`Reformatted` is generated by single changes: fields come in another order, an unknown field comes
in, or such a change is made somewhere inside. Objects are read by looking up the fields that are
known, so a change shows nowhere, in the records that a document describes and in the reason why it
is refused alike. The invariant that one change keeps is what reading sees of a value in its role
(`Role.reading`).
-/

namespace Typings.Schema

open Json (Fields field field? flag hasField)

/-- What a value of a document is read as. -/
inductive Role where
  | record | callable | parameter | type
  /-- A member of an enumeration. -/
  | member
  /-- An object that lists types under the names of properties. -/
  | properties
  | list (of : Role)
  /-- A value that is taken as it is. -/
  | raw
  deriving DecidableEq, Repr

namespace Role

/-- The fields that are known in a type, and what their values are read as. -/
def typeFields : List (String × Role) := [
  ("$ref", raw), ("type", raw), ("enum", list member), ("items", type), ("choices", list type),
  ("parameters", list parameter), ("returns", type), ("async", raw),
  ("properties", properties), ("additionalProperties", type),
  ("functions", list callable), ("events", list callable), ("value", raw),
  ("id", raw), ("description", raw), ("optional", raw), ("deprecated", raw),
  ("unsupported", raw), ("$extend", raw)]

/-- The fields that are known in an object, and what their values are read as. -/
def fields : Role → List (String × Role)
  | record => [("namespace", raw), ("description", raw), ("properties", properties),
      ("functions", list callable), ("events", list callable), ("types", list type)]
  | callable => [("name", raw), ("async", raw), ("description", raw),
      ("parameters", list parameter), ("returns", type), ("deprecated", raw), ("unsupported", raw)]
  | parameter => ("name", raw) :: typeFields
  | type => typeFields
  | member => [("name", raw)]
  | properties | list _ | raw => []

/-- Is an object in this role read by looking up the fields that are known? -/
def isKeyed : Role → Bool
  | properties | list _ | raw => false
  | _ => true

/-- What the value of the field `key` of an object is read as, if it is looked at. -/
def at? (role : Role) (key : String) : Option Role :=
  if role = properties then some type
  else (Keyed.find? Prod.fst key role.fields).map Prod.snd

/-- The fields of an object that are known. -/
def knownFields (role : Role) (fs : Fields) : Fields := fs.filter fun f => (role.at? f.1).isSome

end Role

open Role (list)

/-- Two values in the same role that differ in nothing but the order of fields that are looked up
by their keys, and in fields that are not known. -/
inductive Reformatted : Role → Json → Json → Prop
  | refl {role : Role} {v : Json} : Reformatted role v v
  | symm {role : Role} {v w : Json} (h : Reformatted role v w) : Reformatted role w v
  | trans {role : Role} {u v w : Json} (h : Reformatted role u v) (h' : Reformatted role v w) :
      Reformatted role u w
  /-- The fields of an object come in another order. -/
  | order {role : Role} {fs gs : Fields} (hrole : role.isKeyed = true)
      (hnodup : (fs.map Prod.fst).Nodup) (h : fs.Perm gs) : Reformatted role (.obj fs) (.obj gs)
  /-- A field comes in that is not known. -/
  | unknown {role : Role} {key : String} {v : Json} {fs gs : Fields}
      (hrole : role.isKeyed = true) (hkey : role.at? key = none) :
      Reformatted role (.obj (fs ++ gs)) (.obj (fs ++ (key, v) :: gs))
  /-- The value of a field is reformatted. -/
  | field {role inner : Role} {key : String} {v w : Json} {fs gs : Fields}
      (hkey : role.at? key = some inner) (h : Reformatted inner v w) :
      Reformatted role (.obj (fs ++ (key, v) :: gs)) (.obj (fs ++ (key, w) :: gs))
  /-- An item of a list is reformatted. -/
  | item {role : Role} {v w : Json} {vs ws : List Json} (h : Reformatted role v w) :
      Reformatted (list role) (.arr (vs ++ v :: ws)) (.arr (vs ++ w :: ws))

/-! ## Many changes at once -/

/-- Two fields are the same known field, with values that are each other's reformatted. -/
def FieldReformatted (role : Role) (f g : String × Json) : Prop :=
  f.1 = g.1 ∧ ∃ inner, role.at? f.1 = some inner ∧ Reformatted inner f.2 g.2

theorem FieldReformatted.mk {role inner : Role} {key : String} {v w : Json}
    (hkey : role.at? key = some inner) (h : Reformatted inner v w) :
    FieldReformatted role (key, v) (key, w) := ⟨rfl, inner, hkey, h⟩

namespace Reformatted

variable {role : Role} {fs gs : Fields}

/-- Lists are reformatted item by item, behind any other items. -/
theorem items_append {vs ws : List Json} (h : List.Forall₂ (Reformatted role) vs ws)
    (us : List Json) : Reformatted (list role) (.arr (us ++ vs)) (.arr (us ++ ws)) := by
  induction h generalizing us with
  | nil => exact .refl
  | @cons v w vs ws hv _ ih =>
    have hrest := ih (us ++ [w])
    rw [List.append_assoc, List.append_assoc] at hrest
    exact (item hv).trans hrest

theorem items {vs ws : List Json} (h : List.Forall₂ (Reformatted role) vs ws) :
    Reformatted (list role) (.arr vs) (.arr ws) := items_append h []

/-- Objects are reformatted field by field, behind any other fields. -/
theorem fields_append (h : List.Forall₂ (FieldReformatted role) fs gs) (front : Fields) :
    Reformatted role (.obj (front ++ fs)) (.obj (front ++ gs)) := by
  induction h generalizing front with
  | nil => exact .refl
  | @cons f g fs gs hf _ ih =>
    obtain ⟨key, v⟩ := f
    obtain ⟨key', w⟩ := g
    obtain ⟨rfl, inner, hkey, hv⟩ := hf
    have hrest := ih (front ++ [(key, w)])
    rw [List.append_assoc, List.append_assoc] at hrest
    exact (field hkey hv).trans hrest

/-- Fields that are not known may come in anywhere. -/
theorem knownFields_append (hrole : role.isKeyed = true) (fs front : Fields) :
    Reformatted role (.obj (front ++ role.knownFields fs)) (.obj (front ++ fs)) := by
  induction fs generalizing front with
  | nil => exact .refl
  | cons f fs ih =>
    -- a known field moves into the front part, and an unknown one is put in behind it
    by_cases hkey : (role.at? f.1).isSome = true
    · have hcons : role.knownFields (f :: fs) = f :: role.knownFields fs :=
        List.filter_cons_of_pos hkey
      have hrest := ih (front ++ [f])
      rw [List.append_assoc, List.append_assoc] at hrest
      rw [hcons]
      exact hrest
    · have hcons : role.knownFields (f :: fs) = role.knownFields fs :=
        List.filter_cons_of_neg hkey
      rw [hcons]
      exact (ih front).trans (unknown hrole (Option.not_isSome_iff_eq_none.mp hkey))

/-- **Two objects are each other's reformatted if their known fields are**, one by one, once they
come in the same order. Whatever other fields there are does not matter. -/
theorem object (hrole : role.isKeyed = true) (hnodup : ((role.knownFields fs).map Prod.fst).Nodup)
    {ks : Fields} (horder : (role.knownFields fs).Perm ks)
    (h : List.Forall₂ (FieldReformatted role) ks (role.knownFields gs)) :
    Reformatted role (.obj fs) (.obj gs) := by
  have hfs : Reformatted role (.obj (role.knownFields fs)) (.obj fs) :=
    knownFields_append hrole fs []
  have hgs : Reformatted role (.obj (role.knownFields gs)) (.obj gs) :=
    knownFields_append hrole gs []
  have hvalues : Reformatted role (.obj ks) (.obj (role.knownFields gs)) := fields_append h []
  exact hfs.symm.trans ((order hrole hnodup horder).trans (hvalues.trans hgs))

end Reformatted

/-! ## What reading sees of a value -/

/-- What reading sees of a value: what it says in its role, or the value itself if it cannot be
anything in this role. -/
inductive Reading where
  | raw (v : Json)
  | record (r : Except Fault Record)
  | callable (c : Except Fault Callable)
  | parameter (name : Option Json) (n : Except Fault Node)
  | type (n : Except Fault Node)
  | member (name : Option Json)
  | list (items : List Reading)
  | properties (types : List (String × Reading))

namespace Role

/-- What reading sees of a type. -/
def typeReading : Json → Reading
  | .obj fs => .type (Node.ofJson (.obj fs))
  | v => .raw v

/-- What reading sees of a value in a role. -/
def reading : Role → Json → Reading
  | record, .obj fs => .record (Record.ofJson (.obj fs))
  | callable, .obj fs => .callable (Callable.ofJson (.obj fs))
  | parameter, .obj fs => .parameter (field? "name" fs) (Node.ofJson (.obj fs))
  | type, v => typeReading v
  | member, .obj fs => .member (field? "name" fs)
  | properties, .obj fs => .properties (fs.map fun f => (f.1, typeReading f.2))
  | list role, .arr vs => .list (vs.map role.reading)
  | _, v => .raw v

variable {role : Role} {v w : Json}

/-- Reading sees the difference of two values, unless both are lists or both are objects. -/
theorem reading_cases (h : role.reading v = role.reading w) :
    v = w ∨ (∃ fs gs, v = .obj fs ∧ w = .obj gs) ∨
      ∃ inner vs ws, role = list inner ∧ v = .arr vs ∧ w = .arr ws := by
  rcases v with _ | vs | fs <;> rcases w with _ | ws | gs
  case obj.obj => exact .inr (.inl ⟨fs, gs, rfl, rfl⟩)
  all_goals
    cases role <;>
      simp only [reading, typeReading, Reading.raw.injEq, Reading.list.injEq, reduceCtorEq] at h
  case arr.arr.list inner => exact .inr (.inr ⟨inner, vs, ws, rfl, rfl, rfl⟩)
  all_goals exact .inl h

theorem reading_list_cases (h : (list role).reading v = (list role).reading w) :
    v = w ∨ ∃ vs ws, v = .arr vs ∧ w = .arr ws ∧ vs.map role.reading = ws.map role.reading := by
  rcases reading_cases h with heq | ⟨fs, gs, rfl, rfl⟩ | ⟨inner, vs, ws, -, rfl, rfl⟩
  · exact .inl heq
  · exact .inl (Reading.raw.inj h)
  · exact .inr ⟨vs, ws, rfl, rfl, Reading.list.inj h⟩

/-- Where a list is nothing special, only objects can be read alike without being the same. -/
theorem reading_object_cases (hrole : ∀ inner, role ≠ list inner)
    (h : role.reading v = role.reading w) :
    v = w ∨ ∃ fs gs, v = .obj fs ∧ w = .obj gs := by
  rcases reading_cases h with heq | hobjects | ⟨inner, vs, ws, hlist, -, -⟩
  · exact .inl heq
  · exact .inr hobjects
  · exact absurd hlist (hrole inner)

theorem ofJson_of_reading (h : type.reading v = type.reading w) :
    Node.ofJson v = Node.ofJson w := by
  rcases reading_object_cases (by simp) h with rfl | ⟨fs, gs, rfl, rfl⟩
  · rfl
  · exact Reading.type.inj h

theorem parameter_of_reading (h : parameter.reading v = parameter.reading w) :
    parameterName v = parameterName w ∧ Node.ofJson v = Node.ofJson w := by
  rcases reading_object_cases (by simp) h with rfl | ⟨fs, gs, rfl, rfl⟩
  · exact ⟨rfl, rfl⟩
  · obtain ⟨hname, htype⟩ := Reading.parameter.inj h
    refine ⟨?_, htype⟩
    simp only [parameterName, expectObject, bind, Except.bind, hname]

theorem callable_of_reading (h : callable.reading v = callable.reading w) :
    Callable.ofJson v = Callable.ofJson w := by
  rcases reading_object_cases (by simp) h with rfl | ⟨fs, gs, rfl, rfl⟩
  · rfl
  · exact Reading.callable.inj h

theorem record_of_reading (h : record.reading v = record.reading w) :
    Record.ofJson v = Record.ofJson w := by
  rcases reading_object_cases (by simp) h with rfl | ⟨fs, gs, rfl, rfl⟩
  · rfl
  · exact Reading.record.inj h

theorem enumMembers_cons_of_reading {vs ws : List Json} (h : member.reading v = member.reading w)
    (hrest : enumMembers vs = enumMembers ws) : enumMembers (v :: vs) = enumMembers (w :: ws) := by
  rcases reading_object_cases (by simp) h with rfl | ⟨fs, gs, rfl, rfl⟩
  · cases v <;> simp only [enumMembers, hrest]
  · simp only [enumMembers, Reading.member.inj h, hrest]

/-- What is read item by item depends only on what is seen of the items. -/
theorem eq_of_map_reading {α : Type} {read : List Json → α}
    (hcons : ∀ {v w vs ws}, role.reading v = role.reading w → read vs = read ws →
      read (v :: vs) = read (w :: ws))
    {vs ws : List Json} (h : vs.map role.reading = ws.map role.reading) : read vs = read ws := by
  induction vs generalizing ws with
  | nil => rw [List.map_eq_nil_iff.mp h.symm]
  | cons v vs ih =>
    obtain ⟨w, ws', rfl, hw, hws⟩ := List.map_eq_cons_iff.mp h.symm
    exact hcons hw.symm (ih hws.symm)

theorem listOfJson_of_reading {vs ws : List Json}
    (h : vs.map type.reading = ws.map type.reading) : Node.listOfJson vs = Node.listOfJson ws := by
  refine eq_of_map_reading (fun hv hvs => ?_) h
  rw [Node.listOfJson, Node.listOfJson, ofJson_of_reading hv, hvs]

theorem ofFields_of_reading {fs gs : Fields}
    (h : fs.map (fun f => (f.1, type.reading f.2)) = gs.map fun f => (f.1, type.reading f.2)) :
    Property.ofFields fs = Property.ofFields gs := by
  induction fs generalizing gs with
  | nil => rw [List.map_eq_nil_iff.mp h.symm]
  | cons f fs ih =>
    obtain ⟨g, gs', rfl, hg, hgs⟩ := List.map_eq_cons_iff.mp h.symm
    obtain ⟨hname, htype⟩ := Prod.mk.inj hg
    rw [Property.ofFields, Property.ofFields, ih hgs.symm, ofJson_of_reading htype, hname]

/-! ## What reading sees of the fields of an object -/

/-- Reading sees the same of every known field of two objects. -/
def SameFields (role : Role) (fs gs : Fields) : Prop :=
  ∀ key inner, role.at? key = some inner →
    (field? key fs).map inner.reading = (field? key gs).map inner.reading

namespace SameFields

variable {fs gs : Fields}

theorem field?_cases (h : role.SameFields fs gs) {key : String} {inner : Role}
    (hkey : role.at? key = some inner) :
    field? key fs = field? key gs ∨ ∃ v w, field? key fs = some v ∧ field? key gs = some w ∧
      inner.reading v = inner.reading w := by
  have hmap := h key inner hkey
  -- a field is on both sides or on neither
  cases hfs : field? key fs with
  | none =>
    rw [hfs] at hmap
    exact .inl (Option.map_eq_none_iff.mp hmap.symm).symm
  | some v =>
    rw [hfs] at hmap
    obtain ⟨w, hw, hreading⟩ := Option.map_eq_some_iff.mp hmap.symm
    exact .inr ⟨v, w, rfl, hw, hreading.symm⟩

theorem list_cases (h : role.SameFields fs gs) {key : String} {inner : Role}
    (hkey : role.at? key = some (list inner)) :
    field? key fs = field? key gs ∨ ∃ vs ws, field? key fs = some (.arr vs) ∧
      field? key gs = some (.arr ws) ∧ vs.map inner.reading = ws.map inner.reading := by
  rcases h.field?_cases hkey with heq | ⟨v, w, hv, hw, hreading⟩
  · exact .inl heq
  · rcases reading_list_cases hreading with rfl | ⟨vs, ws, rfl, rfl, hitems⟩
    · exact .inl (hv.trans hw.symm)
    · exact .inr ⟨vs, ws, hv, hw, hitems⟩

theorem field?_eq (h : role.SameFields fs gs) (key : String) (hkey : role.at? key = some raw) :
    field? key fs = field? key gs := by
  rcases h.field?_cases hkey with heq | ⟨v, w, hv, hw, hreading⟩
  · exact heq
  · rw [hv, hw, Reading.raw.inj hreading]

theorem field_eq (h : role.SameFields fs gs) (key : String) (hkey : role.at? key = some raw) :
    field key fs = field key gs := by
  rw [field, field, h.field?_eq key hkey]

theorem flag_eq (h : role.SameFields fs gs) (key : String) (hkey : role.at? key = some raw) :
    flag key fs = flag key gs := by
  rw [flag, flag, h.field?_eq key hkey]

theorem hasField_eq (h : role.SameFields fs gs) (key : String)
    (hkey : (role.at? key).isSome = true) : hasField key fs = hasField key gs := by
  obtain ⟨inner, hinner⟩ := Option.isSome_iff_exists.mp hkey
  unfold hasField
  rcases h.field?_cases hinner with heq | ⟨v, w, hv, hw, -⟩
  · rw [heq]
  · rw [hv, hw]
    rfl

theorem ofField_eq (h : role.SameFields fs gs) (key : String) (hkey : role.at? key = some type) :
    Node.ofField key fs = Node.ofField key gs := by
  rw [Node.ofField_eq, Node.ofField_eq]
  rcases h.field?_cases hkey with heq | ⟨v, w, hv, hw, hreading⟩
  · rw [heq]
  · rw [hv, hw]
    exact congrArg (some <$> ·) (ofJson_of_reading hreading)

theorem additionalOf_eq (h : role.SameFields fs gs)
    (hkey : role.at? "additionalProperties" = some type) :
    Node.additionalOf fs = Node.additionalOf gs := by
  rw [Node.additionalOf_eq, Node.additionalOf_eq]
  rcases h.field?_cases hkey with heq | ⟨v, w, hv, hw, hreading⟩
  · rw [heq]
  · rw [hv, hw]
    rcases reading_object_cases (by simp) hreading with rfl | ⟨as, bs, rfl, rfl⟩
    · rfl
    · exact congrArg (some <$> ·) (ofJson_of_reading hreading)

theorem properties_eq (h : role.SameFields fs gs)
    (hkey : role.at? "properties" = some properties) :
    Property.listOf fs = Property.listOf gs := by
  rw [Property.listOf_eq, Property.listOf_eq]
  rcases h.field?_cases hkey with heq | ⟨v, w, hv, hw, hreading⟩
  · rw [heq]
  · rw [hv, hw]
    rcases reading_object_cases (by simp) hreading with rfl | ⟨as, bs, rfl, rfl⟩
    · rfl
    · exact congrArg (some <$> ·) (ofFields_of_reading (Reading.properties.inj hreading))

theorem choices_eq (h : role.SameFields fs gs) (hkey : role.at? "choices" = some (list type)) :
    (field "choices" fs).isSet = (field "choices" gs).isSet ∧
      Node.choicesOf fs = Node.choicesOf gs := by
  rw [field, field, Node.choicesOf_eq, Node.choicesOf_eq]
  rcases h.list_cases hkey with heq | ⟨vs, ws, hv, hw, hitems⟩
  · rw [heq]
    exact ⟨rfl, rfl⟩
  · rw [hv, hw]
    refine ⟨?_, listOfJson_of_reading hitems⟩
    -- there are choices exactly if something is seen of them
    have hempty := congrArg List.isEmpty hitems
    rw [List.isEmpty_map, List.isEmpty_map] at hempty
    exact congrArg (!·) hempty

theorem enumOf_eq (h : role.SameFields fs gs) (hkey : role.at? "enum" = some (list member)) :
    enumOf fs = enumOf gs := by
  rw [enumOf, enumOf, field, field]
  rcases h.list_cases hkey with heq | ⟨vs, ws, hv, hw, hitems⟩
  · rw [heq]
  · rw [hv, hw]
    exact congrArg (some <$> ·) (eq_of_map_reading enumMembers_cons_of_reading hitems)

theorem typesOf_eq (h : role.SameFields fs gs) (hkey : role.at? "types" = some (list type)) :
    Node.typesOf fs = Node.typesOf gs := by
  rw [Node.typesOf, Node.typesOf, field, field]
  rcases h.list_cases hkey with heq | ⟨vs, ws, hv, hw, hitems⟩
  · rw [heq]
  · rw [hv, hw]
    exact listOfJson_of_reading hitems

theorem parameters_eq (h : role.SameFields fs gs)
    (hkey : role.at? "parameters" = some (list parameter)) :
    Parameter.listOf fs = Parameter.listOf gs := by
  rw [Parameter.listOf_eq, Parameter.listOf_eq]
  rcases h.list_cases hkey with heq | ⟨vs, ws, hv, hw, hitems⟩
  · rw [heq]
  · rw [hv, hw]
    refine eq_of_map_reading (fun hv hvs => ?_) hitems
    obtain ⟨hname, htype⟩ := parameter_of_reading hv
    rw [Parameter.listOfJson, Parameter.listOfJson, hname, htype, hvs]

theorem callables_eq (h : role.SameFields fs gs) (key : String)
    (hkey : role.at? key = some (list callable)) :
    Callable.listOf key fs = Callable.listOf key gs := by
  rw [Callable.listOf_eq, Callable.listOf_eq]
  rcases h.list_cases hkey with heq | ⟨vs, ws, hv, hw, hitems⟩
  · rw [heq]
  · rw [hv, hw]
    refine eq_of_map_reading (fun hv hvs => ?_) hitems
    rw [Callable.listOfJson, Callable.listOfJson, callable_of_reading hv, hvs]

/-! ## Objects whose known fields are the same -/

theorem node_eq (h : type.SameFields fs gs) : Node.ofJson (.obj fs) = Node.ofJson (.obj gs) := by
  have hinfo : Info.ofFields fs = Info.ofFields gs := by
    simp only [Info.ofFields, h.field_eq "id" rfl, h.field_eq "description" rfl,
      h.field_eq "optional" rfl, h.flag_eq "deprecated" rfl, h.field_eq "unsupported" rfl,
      h.field_eq "$extend" rfl]
  have hword : typeWord fs = typeWord gs := by rw [typeWord, typeWord, h.field_eq "type" rfl]
  have hlooks : looksLikeObject fs = looksLikeObject gs := by
    simp only [looksLikeObject, h.hasField_eq "properties" rfl, h.hasField_eq "functions" rfl,
      h.hasField_eq "events" rfl]
  obtain ⟨hset, hchoices⟩ := h.choices_eq rfl
  -- every field that reading a type looks at is read alike
  simp only [Node.ofJson, hinfo, hword, hlooks, hset, hchoices, h.hasField_eq "$ref" rfl,
    h.field_eq "$ref" rfl, h.field_eq "type" rfl, h.hasField_eq "value" rfl,
    h.field_eq "value" rfl, h.enumOf_eq rfl, h.ofField_eq "items" rfl, h.parameters_eq rfl,
    h.ofField_eq "returns" rfl, h.flag_eq "async" rfl, h.properties_eq rfl,
    h.additionalOf_eq rfl, h.callables_eq "functions" rfl, h.callables_eq "events" rfl]

theorem callable_eq (h : callable.SameFields fs gs) :
    Callable.ofJson (.obj fs) = Callable.ofJson (.obj gs) := by
  simp only [Callable.ofJson, h.field?_eq "name" rfl, h.parameters_eq rfl,
    h.ofField_eq "returns" rfl, h.flag_eq "async" rfl, h.field_eq "description" rfl,
    h.flag_eq "deprecated" rfl, h.field_eq "unsupported" rfl]

theorem record_eq (h : record.SameFields fs gs) :
    Record.ofJson (.obj fs) = Record.ofJson (.obj gs) := by
  have hrecord : ∀ name, Record.ofFields name fs = Record.ofFields name gs := by
    intro name
    simp only [Record.ofFields, h.properties_eq rfl, h.callables_eq "functions" rfl,
      h.callables_eq "events" rfl, h.typesOf_eq rfl, h.field_eq "description" rfl]
  simp only [Record.ofJson, expectObject, bind, Except.bind, h.field_eq "namespace" rfl, hrecord]

/-- A parameter is a type that has a name. -/
theorem of_parameter (h : parameter.SameFields fs gs) : type.SameFields fs gs := by
  intro key inner hkey
  refine h key inner ?_
  by_cases hname : key = "name"
  · subst hname
    cases hkey
  · have hne : "name" ≠ key := fun he => hname he.symm
    simp only [at?, fields, Keyed.find?, hne, if_false]
    exact hkey

/-- **An object is read by its known fields.** -/
theorem reading_eq (h : role.SameFields fs gs) (hrole : role.isKeyed = true) :
    role.reading (.obj fs) = role.reading (.obj gs) := by
  cases role with
  | record => exact congrArg Reading.record h.record_eq
  | callable => exact congrArg Reading.callable h.callable_eq
  | parameter =>
    show Reading.parameter _ _ = Reading.parameter _ _
    rw [h.field?_eq "name" rfl, h.of_parameter.node_eq]
  | type => exact congrArg Reading.type h.node_eq
  | member => exact congrArg Reading.member (h.field?_eq "name" rfl)
  -- these are not objects with known fields
  | properties => cases hrole
  | list of => cases hrole
  | raw => cases hrole

/-! ## One change -/

theorem field?_append (key : String) (fs gs : Fields) :
    field? key (fs ++ gs) = (field? key fs).or (field? key gs) := by
  rw [field?, Keyed.find?_append, Option.map_or]
  rfl

theorem of_perm (h : fs.Perm gs) (hnodup : (fs.map Prod.fst).Nodup) : role.SameFields fs gs := by
  intro key inner _
  rw [field?, field?, Keyed.find?_perm h hnodup]

theorem of_unknown {key : String} (hkey : role.at? key = none) (v : Json) (fs gs : Fields) :
    role.SameFields (fs ++ gs) (fs ++ (key, v) :: gs) := by
  intro other inner hother
  have hne : key ≠ other := by
    rintro rfl
    rw [hkey] at hother
    cases hother
  rw [field?_append, field?_append, field?_cons, if_neg hne]

theorem of_field {key : String} {inner : Role} (hkey : role.at? key = some inner)
    (h : inner.reading v = inner.reading w) (fs gs : Fields) :
    role.SameFields (fs ++ (key, v) :: gs) (fs ++ (key, w) :: gs) := by
  intro other inner' hother
  rw [field?_append, field?_append, field?_cons, field?_cons]
  by_cases hne : key = other
  · subst hne
    obtain rfl := Option.some.inj (hkey.symm.trans hother)
    rw [if_pos rfl, if_pos rfl, Option.map_or, Option.map_or, Option.map_some, Option.map_some, h]
  · rw [if_neg hne, if_neg hne]

end SameFields

end Role

/-! ## Whole documents -/

open Role (SameFields)

/-- **Reading does not see the layout of a value**, whatever its role. -/
theorem Reformatted.reading_eq {role : Role} {v w : Json} (h : Reformatted role v w) :
    role.reading v = role.reading w := by
  induction h with
  | refl => rfl
  | symm _ ih => exact ih.symm
  | trans _ _ ih ih' => exact ih.trans ih'
  | order hrole hnodup h => exact (SameFields.of_perm h hnodup).reading_eq hrole
  | @unknown _ _ v fs gs hrole hkey => exact (SameFields.of_unknown hkey v fs gs).reading_eq hrole
  | @field role inner key v w fs gs hkey h ih =>
    by_cases hrole : role.isKeyed = true
    · exact (SameFields.of_field hkey ih fs gs).reading_eq hrole
    · cases role with
      | properties =>
        -- every property is seen in its place
        obtain rfl := Option.some.inj hkey
        have htype : Role.typeReading v = Role.typeReading w := ih
        simp only [Role.reading, List.map_append, List.map_cons, htype]
      | list of => cases hkey
      | raw => cases hkey
      | _ => exact absurd rfl hrole
  | item h ih => simp only [Role.reading, List.map_append, List.map_cons, ih]

/--
**Reformatting a document changes nothing.**

Two documents that differ only in the order of the fields of records, functions, parameters, types
and members of enumerations, at any depth, and in fields of them that are not known, describe the
same records, or are refused for the same reason.
-/
theorem Record.listOfJson_reformatted {v w : Json} (h : Reformatted (list .record) v w) :
    Record.listOfJson v = Record.listOfJson w := by
  rcases Role.reading_list_cases h.reading_eq with rfl | ⟨vs, ws, rfl, rfl, hitems⟩
  · rfl
  · show vs.mapM Record.ofJson = ws.mapM Record.ofJson
    refine Role.eq_of_map_reading (fun hv hvs => ?_) hitems
    rw [List.mapM_cons, List.mapM_cons, Role.record_of_reading hv, hvs]

/-- A type with a member that is an object, in two layouts. -/
def statusType : Json := .obj [("id", .str "Status"), ("type", .str "string"),
  ("enum", .arr [.obj [("name", .str "loading")], .str "complete"])]
def statusRearranged : Json := .obj [
  ("enum", .arr [.obj [("description", .str "Not done."), ("name", .str "loading")],
    .str "complete"]),
  ("type", .str "string"), ("id", .str "Status")]

/-- A function with a parameter, in two layouts. -/
def getFunction : Json := .obj [("name", .str "get"),
  ("parameters", .arr [.obj [("name", .str "status"), ("$ref", .str "Status")]])]
def getRearranged : Json := .obj [("type", .str "function"),
  ("parameters", .arr [.obj [("$ref", .str "Status"), ("minimum", .int 0),
    ("name", .str "status")]]),
  ("name", .str "get")]

/-- A document, in two layouts. -/
def tabsDocument : Json := .arr [.obj [("namespace", .str "tabs"),
  ("types", .arr [statusType]), ("functions", .arr [getFunction])]]
def tabsRearranged : Json := .arr [.obj [("functions", .arr [getRearranged]),
  ("permissions", .arr []), ("types", .arr [statusRearranged]), ("namespace", .str "tabs")]]

theorem reformatted_tabs : Reformatted (list .record) tabsDocument tabsRearranged := by
  have hkept : ∀ {role inner : Role} {key : String} {v : Json}, role.at? key = some inner →
      FieldReformatted role (key, v) (key, v) := fun hkey => .mk hkey .refl
  -- from the inside out: a member of an enumeration, its type, a parameter, its function
  have hmember : Reformatted .member (.obj [("name", .str "loading")])
      (.obj [("description", .str "Not done."), ("name", .str "loading")]) :=
    .object rfl (by decide) (.refl _) (.cons (hkept rfl) .nil)
  have hstatus : Reformatted .type statusType statusRearranged :=
    .object rfl (by decide) (by decide)
      (.cons (.mk rfl (.items (.cons hmember (.cons .refl .nil))))
        (.cons (hkept rfl) (.cons (hkept rfl) .nil)))
  have hparameter : Reformatted .parameter
      (.obj [("name", .str "status"), ("$ref", .str "Status")])
      (.obj [("$ref", .str "Status"), ("minimum", .int 0), ("name", .str "status")]) :=
    .object rfl (by decide) (by decide) (.cons (hkept rfl) (.cons (hkept rfl) .nil))
  have hget : Reformatted .callable getFunction getRearranged :=
    .object rfl (by decide) (by decide)
      (.cons (.mk rfl (.items (.cons hparameter .nil))) (.cons (hkept rfl) .nil))
  exact .items (.cons (.object rfl (by decide) (by decide)
    (.cons (.mk rfl (.items (.cons hget .nil)))
      (.cons (.mk rfl (.items (.cons hstatus .nil))) (.cons (hkept rfl) .nil)))) .nil)

theorem Record.listOfJson_reformatted_tabs :
    Reformatted (list .record) tabsDocument tabsRearranged ∧ tabsDocument ≠ tabsRearranged ∧
      Record.listOfJson tabsDocument = Record.listOfJson tabsRearranged :=
  ⟨reformatted_tabs, by decide, Record.listOfJson_reformatted reformatted_tabs⟩

end Typings.Schema
