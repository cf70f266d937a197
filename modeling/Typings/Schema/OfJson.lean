import Typings.Schema.Node
import Typings.Json.Display
import Typings.Fault

/-!
# Records from JSON

Classification of the JSON of a schema document. A type is told by the first rule that
applies: a reference, then the plain types, then a list of choices, then functions and
objects, then a bare value. Fields that no rule names are ignored.

The functions recurse on the JSON value itself. A field that has to be read as something
is looked up and read in one go (`Node.ofField?` and the like), so that the recursion
stays inside the value.
-/

namespace Typings.Schema

open Json (Fields field field? flag hasField)

/-- Refuse a document. -/
def refuse {α : Type} (problem : Problem) : Except Fault α := .error (.refused none problem)

/-- The fields of a value that has to be an object. -/
def expectObject (part : Part) : Json → Except Fault Fields
  | .obj fields => .ok fields
  | v => refuse (.notAnObject part v.kind)

/-- What the fields of a type say, whatever its shape. -/
def Info.ofFields (fields : Fields) : Info where
  id := field "id" fields
  description := field "description" fields
  optional := (field "optional" fields).isSet
  deprecated := flag "deprecated" fields
  unsupported := (field "unsupported" fields).isSet
  extends? := field "$extend" fields

/-- The members of an enumeration: texts, or objects with a name. -/
def enumMembers : List Json → Except Fault (List String)
  | [] => .ok []
  | .obj fields :: rest => do
    match field? "name" fields with
    | none => refuse .namelessMember
    | some name => return name.display :: (← enumMembers rest)
  | v :: rest => return v.display :: (← enumMembers rest)

/-- The members of a text type, if the schema lists them. -/
def enumOf (fields : Fields) : Except Fault (Option (List String)) :=
  match field "enum" fields with
  | .arr members => some <$> enumMembers members
  | _ => .ok none

/-- The name of a parameter. -/
def parameterName (v : Json) : Except Fault Json := do
  let fields ← expectObject .parameter v
  match field? "name" fields with
  | none => refuse .namelessParameter
  | some name => return name

/-- The text of a `type` field, if it is a text. -/
def typeWord (fields : Fields) : Option String :=
  match field "type" fields with
  | .str word => some word
  | _ => none

/-- Does the absence of a `type` field make an object of a type? -/
def looksLikeObject (fields : Fields) : Bool :=
  hasField "properties" fields || hasField "functions" fields || hasField "events" fields

/-- The shape of a bare value. -/
def Shape.ofValue : Json → Shape
  | .scalar s => .constant s
  | _ => .any

/-- A type of any value, about which nothing else is said. -/
def Node.anything : Node := ⟨{}, .any⟩

mutual

/-- The type that a value describes. -/
def Node.ofJson : Json → Except Fault Node
  | .obj fields =>
    let word := typeWord fields
    let untyped := (field "type" fields).kind == .null
    Node.mk (Info.ofFields fields) <$>
      if hasField "$ref" fields then .ok (.reference (field "$ref" fields))
      else if word = some "integer" then .ok (.number true)
      else if word = some "number" then .ok (.number false)
      else if word = some "string" || word = some "url" then Shape.string <$> enumOf fields
      else if word = some "array" then Shape.array <$> Node.ofField "items" fields
      else if word = some "boolean" then .ok .boolean
      else if (field "choices" fields).isSet then Shape.choice <$> Node.choicesOf fields
      else if word = some "function" then do
        let parameters ← Parameter.listOf fields
        let returns ← Node.ofField "returns" fields
        return .function parameters returns (flag "async" fields)
      else if word = some "any" then .ok .any
      else if word = some "object" || (untyped && looksLikeObject fields) then do
        let properties ← Property.listOf fields
        let additional ← Node.additionalOf fields
        let functions ← Callable.listOf "functions" fields
        let events ← Callable.listOf "events" fields
        return .object properties functions events additional
      else if untyped && hasField "value" fields then .ok (Shape.ofValue (field "value" fields))
      else .ok (.unknown (field "type" fields))
  | v => refuse (.notAnObject .type v.kind)

/-- The type that the field `key` describes, if there is such a field. -/
def Node.ofField (key : String) : List (String × Json) → Except Fault (Option Node)
  | [] => .ok none
  | (k, v) :: fields => if k = key then some <$> Node.ofJson v else Node.ofField key fields

/-- Types that are listed. -/
def Node.listOfJson : List Json → Except Fault (List Node)
  | [] => .ok []
  | v :: vs => do
    let n ← Node.ofJson v
    let ns ← Node.listOfJson vs
    return n :: ns

/-- The types to choose from. The parts of a text or of an object are texts, which are no
types. -/
def Node.choicesOf : List (String × Json) → Except Fault (List Node)
  | [] => .ok []
  | (k, v) :: fields =>
    if k = "choices" then
      match v with
      | .arr vs => Node.listOfJson vs
      | .obj _ => refuse (.notAnObject .type .str)
      | .scalar (.str _) => refuse (.notAnObject .type .str)
      | v => .error (.choicesWithoutParts v.kind)
    else Node.choicesOf fields

/-- The type of properties without a name of their own: `true` admits any value. -/
def Node.additionalOf : List (String × Json) → Except Fault (Option Node)
  | [] => .ok none
  | (k, v) :: fields =>
    if k = "additionalProperties" then
      match v with
      | .scalar (.bool true) => .ok (some Node.anything)
      | .obj gs => some <$> Node.ofJson (.obj gs)
      | _ => .ok none
    else Node.additionalOf fields

/-- Parameters that are listed. -/
def Parameter.listOfJson : List Json → Except Fault (List Parameter)
  | [] => .ok []
  | v :: vs => do
    let name ← parameterName v
    let n ← Node.ofJson v
    let ps ← Parameter.listOfJson vs
    return ⟨name, n⟩ :: ps

/-- The parameters of a function; none if the field is left out or `null`. -/
def Parameter.listOf : List (String × Json) → Except Fault (List Parameter)
  | [] => .ok []
  | (k, v) :: fields =>
    if k = "parameters" then
      match v with
      | .scalar .null => .ok []
      | .arr vs => Parameter.listOfJson vs
      | _ => refuse .parametersNotAList
    else Parameter.listOf fields

/-- Properties from the fields of an object. -/
def Property.ofFields : List (String × Json) → Except Fault (List Property)
  | [] => .ok []
  | (name, v) :: fields => do
    let n ← Node.ofJson v
    let ps ← Property.ofFields fields
    return ⟨name, n⟩ :: ps

/-- The properties of an object type, if the field is there. -/
def Property.listOf : List (String × Json) → Except Fault (Option (List Property))
  | [] => .ok none
  | (k, v) :: fields =>
    if k = "properties" then
      match v with
      | .obj gs => some <$> Property.ofFields gs
      | v => refuse (.notAnObject .properties v.kind)
    else Property.listOf fields

/-- The function or event that a value describes. -/
def Callable.ofJson : Json → Except Fault Callable
  | .obj fields =>
    match field? "name" fields with
    | none => refuse .namelessFunction
    | some name => do
      let parameters ← Parameter.listOf fields
      let returns ← Node.ofField "returns" fields
      return {
        name, parameters, returns
        async := flag "async" fields
        description := field "description" fields
        deprecated := flag "deprecated" fields
        unsupported := (field "unsupported" fields).isSet }
  | v => refuse (.notAnObject .function v.kind)

/-- Functions or events that are listed. -/
def Callable.listOfJson : List Json → Except Fault (List Callable)
  | [] => .ok []
  | v :: vs => do
    let c ← Callable.ofJson v
    let cs ← Callable.listOfJson vs
    return c :: cs

/-- The functions or events in the field `key`; none if it is left out or `null`. -/
def Callable.listOf (key : String) : List (String × Json) → Except Fault (List Callable)
  | [] => .ok []
  | (k, v) :: fields =>
    if k = key then
      match v with
      | .scalar .null => .ok []
      | .arr vs => Callable.listOfJson vs
      | v => refuse (.notAList key v.kind)
    else Callable.listOf key fields

end

/-! ## Reading a field is looking it up and reading its value -/

theorem field?_cons (key k : String) (v : Json) (fields : Fields) :
    field? key ((k, v) :: fields) = if k = key then some v else field? key fields := by
  simp only [field?, Keyed.find?]
  split <;> rfl

theorem Node.ofField_eq (key : String) (fields : Fields) :
    Node.ofField key fields = match field? key fields with
      | none => .ok none
      | some v => some <$> Node.ofJson v := by
  induction fields with
  | nil => simp [Node.ofField, field?, Keyed.find?]
  | cons f fields ih =>
    rw [Node.ofField, field?_cons]
    split
    · rfl
    · exact ih

theorem Node.choicesOf_eq (fields : Fields) :
    Node.choicesOf fields = match field? "choices" fields with
      | none => .ok []
      | some (.arr vs) => Node.listOfJson vs
      | some (.obj _) => refuse (.notAnObject .type .str)
      | some (.str _) => refuse (.notAnObject .type .str)
      | some v => .error (.choicesWithoutParts v.kind) := by
  induction fields with
  | nil => simp [Node.choicesOf, field?, Keyed.find?]
  | cons f fields ih =>
    obtain ⟨k, v⟩ := f
    rw [field?_cons]
    by_cases h : k = "choices" <;> rcases v with (_ | (_ | _) | _ | _ | _) | _ | _ <;>
      simp [Node.choicesOf, h, ih]

theorem Node.additionalOf_eq (fields : Fields) :
    Node.additionalOf fields = match field? "additionalProperties" fields with
      | some (.bool true) => .ok (some Node.anything)
      | some (.obj gs) => some <$> Node.ofJson (.obj gs)
      | _ => .ok none := by
  induction fields with
  | nil => simp [Node.additionalOf, field?, Keyed.find?]
  | cons f fields ih =>
    obtain ⟨k, v⟩ := f
    rw [field?_cons]
    by_cases h : k = "additionalProperties" <;> rcases v with (_ | (_ | _) | _ | _ | _) | _ | _ <;>
      simp [Node.additionalOf, h, ih]

theorem Parameter.listOf_eq (fields : Fields) :
    Parameter.listOf fields = match field? "parameters" fields with
      | none => .ok []
      | some .null => .ok []
      | some (.arr vs) => Parameter.listOfJson vs
      | some _ => refuse .parametersNotAList := by
  induction fields with
  | nil => simp [Parameter.listOf, field?, Keyed.find?]
  | cons f fields ih =>
    obtain ⟨k, v⟩ := f
    rw [field?_cons]
    by_cases h : k = "parameters" <;> rcases v with (_ | (_ | _) | _ | _ | _) | _ | _ <;>
      simp [Parameter.listOf, h, ih]

theorem Property.listOf_eq (fields : Fields) :
    Property.listOf fields = match field? "properties" fields with
      | none => .ok none
      | some (.obj gs) => some <$> Property.ofFields gs
      | some v => refuse (.notAnObject .properties v.kind) := by
  induction fields with
  | nil => simp [Property.listOf, field?, Keyed.find?]
  | cons f fields ih =>
    obtain ⟨k, v⟩ := f
    rw [field?_cons]
    by_cases h : k = "properties" <;> rcases v with (_ | (_ | _) | _ | _ | _) | _ | _ <;>
      simp [Property.listOf, h, ih]

theorem Callable.listOf_eq (key : String) (fields : Fields) :
    Callable.listOf key fields = match field? key fields with
      | none => .ok []
      | some .null => .ok []
      | some (.arr vs) => Callable.listOfJson vs
      | some v => refuse (.notAList key v.kind) := by
  induction fields with
  | nil => simp [Callable.listOf, field?, Keyed.find?]
  | cons f fields ih =>
    obtain ⟨k, v⟩ := f
    rw [field?_cons]
    by_cases h : k = key <;> rcases v with (_ | (_ | _) | _ | _ | _) | _ | _ <;>
      simp [Callable.listOf, h, ih]

/-! ## Records -/

/-- The types of a record; none if the field is left out or `null`. -/
def Node.typesOf (fields : Fields) : Except Fault (List Node) :=
  match field "types" fields with
  | .null => .ok []
  | .arr vs => Node.listOfJson vs
  | v => refuse (.notAList "types" v.kind)

/-- The record of the namespace `name` that the fields of an object describe. -/
def Record.ofFields (name : String) (fields : Fields) : Except Fault Record := do
  let properties ← Property.listOf fields
  let functions ← Callable.listOf "functions" fields
  let events ← Callable.listOf "events" fields
  let types ← Node.typesOf fields
  return {
    name, functions, events, types
    description := field "description" fields
    properties := Keyed.putAll Property.name [] (properties.getD [])
    nodup := Keyed.nodup_map_putAll _ List.nodup_nil }

/-- The record that a value describes. -/
def Record.ofJson (v : Json) : Except Fault Record := do
  let fields ← expectObject .record v
  match field "namespace" fields with
  | .str name => (Record.ofFields name fields).mapError (Fault.within name)
  | _ => refuse .namelessRecord

/-- The records that a whole document describes. -/
def Record.listOfJson : Json → Except Fault (List Record)
  | .arr vs => vs.mapM Record.ofJson
  | v => refuse (.notRecords v.kind)

end Typings.Schema
