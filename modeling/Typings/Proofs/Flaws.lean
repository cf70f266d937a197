import Typings.Schema.OfJson

/-!
# What is wrong with a document

Reading a document ends at the first thing that is wrong with it. Here everything that is wrong
is listed, in reading order and by the rules by which a document is read. For all of it a document
is refused, with one exception: choices that are a number or `true` have no parts, and that is
found out only when the parts are asked for.

Reading ends well exactly if there are no flaws, and otherwise with the fault of the first one.

The list of flaws is made by a function of its own, with a case for each construct, which does
not stop at anything. `StopsAt` relates it to reading, and there is a rule for each operation
that readers are made of: what ends well, what refuses, `map`, `bind` and `if`. Reading one thing
and then another has the flaws of the first in front of those of the second (`StopsAt.bind`), so
the proof for each reader is its own text, told in these rules.
-/

namespace Typings.Schema

open Json (Fields field field? hasField)

/-- What can be wrong with a document. -/
inductive Flaw where
  /-- The document is refused. -/
  | problem (p : Problem)
  /-- Choices have no parts, and reading breaks off. -/
  | bareChoices (found : Json.Kind)

/-- What reading ends with if it comes upon a flaw. -/
def Flaw.fault : Flaw → Fault
  | problem p => .refused none p
  | bareChoices found => .choicesWithoutParts found

/-- A flaw inside the record of a namespace. -/
def Flaw.within (name : String) : Flaw → Flaw
  | problem p => problem (.within name p)
  | bareChoices found => bareChoices found

/-! ## All flaws -/

/-- The flaws of listed members: an object without a name is none. -/
def memberFlaws : List Json → List Flaw
  | [] => []
  | .obj fields :: rest =>
    if hasField "name" fields then memberFlaws rest
    else .problem .namelessMember :: memberFlaws rest
  | _ :: rest => memberFlaws rest

/-- The flaws of the members of a text type. -/
def enumFlaws (fields : Fields) : List Flaw :=
  match field "enum" fields with
  | .arr members => memberFlaws members
  | _ => []

/-- The flaws of a parameter, its type apart. -/
def parameterFlaws : Json → List Flaw
  | .obj fields => if hasField "name" fields then [] else [.problem .namelessParameter]
  | v => [.problem (.notAnObject .parameter v.kind)]

mutual

/-- The flaws of a type. -/
def Node.flaws : Json → List Flaw
  | .obj fields =>
    let word := typeWord fields
    let untyped := (field "type" fields).kind == .null
    if hasField "$ref" fields then []
    else if word = some "integer" then []
    else if word = some "number" then []
    else if word = some "string" || word = some "url" then enumFlaws fields
    else if word = some "array" then Node.flawsOf "items" fields
    else if word = some "boolean" then []
    else if (field "choices" fields).isSet then Node.choiceFlaws fields
    else if word = some "function" then Parameter.listFlaws fields ++ Node.flawsOf "returns" fields
    else if word = some "any" then []
    else if word = some "object" || (untyped && looksLikeObject fields) then
      Property.listFlaws fields ++ Node.additionalFlaws fields ++
        Callable.listFlaws "functions" fields ++ Callable.listFlaws "events" fields
    else []
  | v => [.problem (.notAnObject .type v.kind)]

/-- The flaws of the type in the field `key`. -/
def Node.flawsOf (key : String) : List (String × Json) → List Flaw
  | [] => []
  | (k, v) :: fields => if k = key then Node.flaws v else Node.flawsOf key fields

/-- The flaws of types that are listed. -/
def Node.flawsOfAll : List Json → List Flaw
  | [] => []
  | v :: vs => Node.flaws v ++ Node.flawsOfAll vs

/-- The flaws of the types to choose from. -/
def Node.choiceFlaws : List (String × Json) → List Flaw
  | [] => []
  | (k, v) :: fields =>
    if k = "choices" then
      match v with
      | .arr vs => Node.flawsOfAll vs
      | .obj _ => [.problem (.notAnObject .type .str)]
      | .scalar (.str _) => [.problem (.notAnObject .type .str)]
      | v => [.bareChoices v.kind]
    else Node.choiceFlaws fields

/-- The flaws of the type of properties without a name of their own. -/
def Node.additionalFlaws : List (String × Json) → List Flaw
  | [] => []
  | (k, v) :: fields =>
    if k = "additionalProperties" then
      match v with
      | .obj gs => Node.flaws (.obj gs)
      | _ => []
    else Node.additionalFlaws fields

/-- The flaws of parameters that are listed. -/
def Parameter.flawsOfAll : List Json → List Flaw
  | [] => []
  | v :: vs => parameterFlaws v ++ Node.flaws v ++ Parameter.flawsOfAll vs

/-- The flaws of the parameters of a function. -/
def Parameter.listFlaws : List (String × Json) → List Flaw
  | [] => []
  | (k, v) :: fields =>
    if k = "parameters" then
      match v with
      | .scalar .null => []
      | .arr vs => Parameter.flawsOfAll vs
      | _ => [.problem .parametersNotAList]
    else Parameter.listFlaws fields

/-- The flaws of properties. -/
def Property.flawsOfAll : List (String × Json) → List Flaw
  | [] => []
  | (_, v) :: fields => Node.flaws v ++ Property.flawsOfAll fields

/-- The flaws of the properties of an object type. -/
def Property.listFlaws : List (String × Json) → List Flaw
  | [] => []
  | (k, v) :: fields =>
    if k = "properties" then
      match v with
      | .obj gs => Property.flawsOfAll gs
      | v => [.problem (.notAnObject .properties v.kind)]
    else Property.listFlaws fields

/-- The flaws of a function or event. -/
def Callable.flaws : Json → List Flaw
  | .obj fields =>
    (if hasField "name" fields then [] else [.problem .namelessFunction]) ++
      Parameter.listFlaws fields ++ Node.flawsOf "returns" fields
  | v => [.problem (.notAnObject .function v.kind)]

/-- The flaws of functions or events that are listed. -/
def Callable.flawsOfAll : List Json → List Flaw
  | [] => []
  | v :: vs => Callable.flaws v ++ Callable.flawsOfAll vs

/-- The flaws of the functions or events in the field `key`. -/
def Callable.listFlaws (key : String) : List (String × Json) → List Flaw
  | [] => []
  | (k, v) :: fields =>
    if k = key then
      match v with
      | .scalar .null => []
      | .arr vs => Callable.flawsOfAll vs
      | v => [.problem (.notAList key v.kind)]
    else Callable.listFlaws key fields

end

/-- The flaws of the types of a record. -/
def Node.typeFlaws (fields : Fields) : List Flaw :=
  match field "types" fields with
  | .null => []
  | .arr vs => Node.flawsOfAll vs
  | v => [.problem (.notAList "types" v.kind)]

/-- The flaws of what a record holds. -/
def Record.contentFlaws (fields : Fields) : List Flaw :=
  Property.listFlaws fields ++ Callable.listFlaws "functions" fields ++
    Callable.listFlaws "events" fields ++ Node.typeFlaws fields

/-- The flaws of a record. Those of what it holds are told with its name. -/
def Record.flaws : Json → List Flaw
  | .obj fields =>
    match field "namespace" fields with
    | .str name => (Record.contentFlaws fields).map (Flaw.within name)
    | _ => [.problem .namelessRecord]
  | v => [.problem (.notAnObject .record v.kind)]

/-- The flaws of a document. -/
def Record.listFlaws : Json → List Flaw
  | .arr vs => vs.flatMap Record.flaws
  | v => [.problem (.notRecords v.kind)]

/-! ## Reading ends at the first flaw -/

/-- A reading of something with these flaws: it ends well if there are none, and with the first
one otherwise. -/
def StopsAt {α : Type} (r : Except Fault α) : List Flaw → Prop
  | [] => ∃ a, r = .ok a
  | flaw :: _ => r = .error flaw.fault

section StopsAt

variable {α β : Type} {r s : Except Fault α} {flaws flaws' : List Flaw}

theorem StopsAt.ok (a : α) : StopsAt (.ok a) [] := ⟨a, rfl⟩

theorem StopsAt.refuse (problem : Problem) (flaws : List Flaw) :
    StopsAt (Schema.refuse problem : Except Fault α) (.problem problem :: flaws) := rfl

theorem StopsAt.map (f : α → β) (h : StopsAt r flaws) : StopsAt (f <$> r) flaws := by
  cases flaws with
  | nil =>
    obtain ⟨a, rfl⟩ := h
    exact ⟨f a, rfl⟩
  | cons flaw flaws => exact Fault.map_eq_error.mpr h

/-- What is read first has its flaws first. -/
theorem StopsAt.bind {f : α → Except Fault β} (h : StopsAt r flaws)
    (hf : ∀ a, r = .ok a → StopsAt (f a) flaws') : StopsAt (r >>= f) (flaws ++ flaws') := by
  cases flaws with
  | nil =>
    obtain ⟨a, rfl⟩ := h
    exact hf a rfl
  | cons flaw flaws => exact Fault.bind_eq_error.mpr (.inl h)

theorem StopsAt.ite {c : Prop} [Decidable c] (h : StopsAt r flaws) (h' : StopsAt s flaws') :
    StopsAt (if c then r else s) (if c then flaws else flaws') := by
  split
  · exact h
  · exact h'

end StopsAt

theorem stopsAt_enumMembers (members : List Json) :
    StopsAt (enumMembers members) (memberFlaws members) := by
  induction members with
  | nil => exact .ok []
  | cons v rest ih =>
    cases v with
    | obj fields =>
      rw [enumMembers, memberFlaws, hasField]
      cases field? "name" fields with
      | none => exact .refuse .namelessMember _
      | some name => exact .map (name.display :: ·) ih
    | scalar s => exact .map ((Json.scalar s).display :: ·) ih
    | arr items => exact .map ((Json.arr items).display :: ·) ih

theorem stopsAt_enumOf (fields : Fields) : StopsAt (enumOf fields) (enumFlaws fields) := by
  unfold enumOf enumFlaws
  cases field "enum" fields with
  | arr members => exact .map some (stopsAt_enumMembers members)
  | scalar s => exact .ok none
  | obj fields => exact .ok none

theorem stopsAt_parameterName (v : Json) : StopsAt (parameterName v) (parameterFlaws v) := by
  cases v with
  | obj fields =>
    rw [parameterFlaws, hasField]
    cases hname : field? "name" fields with
    | none =>
      simp only [parameterName, expectObject, bind, Except.bind, hname]
      exact .refuse .namelessParameter _
    | some name =>
      simp only [parameterName, expectObject, bind, Except.bind, hname]
      exact .ok name
  | scalar s => exact .refuse _ _
  | arr items => exact .refuse _ _

mutual

/-- **A type is read up to its first flaw.** -/
theorem Node.stopsAt_ofJson : (v : Json) → StopsAt (Node.ofJson v) (Node.flaws v)
  | .obj fields => by
    have hitems := Node.stopsAt_ofField "items" fields
    have hreturns := Node.stopsAt_ofField "returns" fields
    have hchoices := Node.stopsAt_choicesOf fields
    have hparameters := Parameter.stopsAt_listOf fields
    have hproperties := Property.stopsAt_listOf fields
    have hadditional := Node.stopsAt_additionalOf fields
    have hfunctions := Callable.stopsAt_listOf "functions" fields
    have hevents := Callable.stopsAt_listOf "events" fields
    rw [Node.ofJson, Node.flaws]
    -- the rules by which a type is told, one after the other
    refine .map _ (.ite (.ok _) (.ite (.ok _) (.ite (.ok _) (.ite ?_ (.ite ?_ (.ite (.ok _)
      (.ite ?_ (.ite ?_ (.ite (.ok _) (.ite ?_ ?_))))))))))
    · exact .map _ (stopsAt_enumOf fields)
    · exact .map _ hitems
    · exact .map _ hchoices
    · exact hparameters.bind fun _ _ => hreturns.map _
    · rw [List.append_assoc, List.append_assoc]
      exact hproperties.bind fun _ _ => hadditional.bind fun _ _ =>
        hfunctions.bind fun _ _ => hevents.map _
    · split
      · exact .ok _
      · exact .ok _
  | .scalar s => .refuse (.notAnObject .type (Json.scalar s).kind) []
  | .arr items => .refuse (.notAnObject .type (Json.arr items).kind) []

theorem Node.stopsAt_ofField (key : String) : (fields : List (String × Json)) →
    StopsAt (Node.ofField key fields) (Node.flawsOf key fields)
  | [] => .ok none
  | (k, v) :: fields => by
    rw [Node.ofField, Node.flawsOf]
    exact .ite (.map some (Node.stopsAt_ofJson v)) (Node.stopsAt_ofField key fields)

theorem Node.stopsAt_listOfJson : (vs : List Json) →
    StopsAt (Node.listOfJson vs) (Node.flawsOfAll vs)
  | [] => .ok []
  | v :: vs => by
    rw [Node.listOfJson, Node.flawsOfAll]
    exact (Node.stopsAt_ofJson v).bind fun _ _ => (Node.stopsAt_listOfJson vs).map _

theorem Node.stopsAt_choicesOf : (fields : List (String × Json)) →
    StopsAt (Node.choicesOf fields) (Node.choiceFlaws fields)
  | [] => .ok []
  | (k, v) :: fields => by
    rw [Node.choicesOf.eq_def, Node.choiceFlaws.eq_def]
    refine .ite ?_ (Node.stopsAt_choicesOf fields)
    rcases v with (_ | _ | _ | _ | _) | vs | gs
    case arr => exact Node.stopsAt_listOfJson vs
    all_goals rfl

theorem Node.stopsAt_additionalOf : (fields : List (String × Json)) →
    StopsAt (Node.additionalOf fields) (Node.additionalFlaws fields)
  | [] => .ok none
  | (k, v) :: fields => by
    rw [Node.additionalOf.eq_def, Node.additionalFlaws.eq_def]
    refine .ite ?_ (Node.stopsAt_additionalOf fields)
    rcases v with (_ | (_ | _) | _ | _ | _) | vs | gs
    case obj => exact .map some (Node.stopsAt_ofJson (.obj gs))
    all_goals exact .ok _

theorem Parameter.stopsAt_listOfJson : (vs : List Json) →
    StopsAt (Parameter.listOfJson vs) (Parameter.flawsOfAll vs)
  | [] => .ok []
  | v :: vs => by
    rw [Parameter.listOfJson, Parameter.flawsOfAll, List.append_assoc]
    exact (stopsAt_parameterName v).bind fun _ _ => (Node.stopsAt_ofJson v).bind fun _ _ =>
      (Parameter.stopsAt_listOfJson vs).map _

theorem Parameter.stopsAt_listOf : (fields : List (String × Json)) →
    StopsAt (Parameter.listOf fields) (Parameter.listFlaws fields)
  | [] => .ok []
  | (k, v) :: fields => by
    rw [Parameter.listOf.eq_def, Parameter.listFlaws.eq_def]
    refine .ite ?_ (Parameter.stopsAt_listOf fields)
    rcases v with (_ | _ | _ | _ | _) | vs | gs
    case arr => exact Parameter.stopsAt_listOfJson vs
    case scalar.null => exact .ok _
    all_goals exact .refuse _ _

theorem Property.stopsAt_ofFields : (fields : List (String × Json)) →
    StopsAt (Property.ofFields fields) (Property.flawsOfAll fields)
  | [] => .ok []
  | (_, v) :: fields => by
    rw [Property.ofFields, Property.flawsOfAll]
    exact (Node.stopsAt_ofJson v).bind fun _ _ => (Property.stopsAt_ofFields fields).map _

theorem Property.stopsAt_listOf : (fields : List (String × Json)) →
    StopsAt (Property.listOf fields) (Property.listFlaws fields)
  | [] => .ok none
  | (k, v) :: fields => by
    rw [Property.listOf.eq_def, Property.listFlaws.eq_def]
    refine .ite ?_ (Property.stopsAt_listOf fields)
    cases v with
    | obj gs => exact .map some (Property.stopsAt_ofFields gs)
    | scalar s => exact .refuse _ _
    | arr vs => exact .refuse _ _

theorem Callable.stopsAt_ofJson : (v : Json) → StopsAt (Callable.ofJson v) (Callable.flaws v)
  | .obj fields => by
    have hparameters := Parameter.stopsAt_listOf fields
    have hreturns := Node.stopsAt_ofField "returns" fields
    rw [Callable.ofJson, Callable.flaws, hasField]
    cases field? "name" fields with
    | none => exact .refuse .namelessFunction _
    | some name => exact hparameters.bind fun _ _ => hreturns.map _
  | .scalar s => .refuse (.notAnObject .function (Json.scalar s).kind) []
  | .arr items => .refuse (.notAnObject .function (Json.arr items).kind) []

theorem Callable.stopsAt_listOfJson : (vs : List Json) →
    StopsAt (Callable.listOfJson vs) (Callable.flawsOfAll vs)
  | [] => .ok []
  | v :: vs => by
    rw [Callable.listOfJson, Callable.flawsOfAll]
    exact (Callable.stopsAt_ofJson v).bind fun _ _ => (Callable.stopsAt_listOfJson vs).map _

theorem Callable.stopsAt_listOf (key : String) : (fields : List (String × Json)) →
    StopsAt (Callable.listOf key fields) (Callable.listFlaws key fields)
  | [] => .ok []
  | (k, v) :: fields => by
    rw [Callable.listOf.eq_def, Callable.listFlaws.eq_def]
    refine .ite ?_ (Callable.stopsAt_listOf key fields)
    rcases v with (_ | _ | _ | _ | _) | vs | gs
    case arr => exact Callable.stopsAt_listOfJson vs
    case scalar.null => exact .ok _
    all_goals exact .refuse _ _

end

/-! ## Records and documents -/

theorem Node.stopsAt_typesOf (fields : Fields) :
    StopsAt (Node.typesOf fields) (Node.typeFlaws fields) := by
  unfold Node.typesOf Node.typeFlaws
  rcases field "types" fields with (_ | _ | _ | _ | _) | vs | gs
  case arr => exact Node.stopsAt_listOfJson vs
  case scalar.null => exact .ok _
  all_goals exact .refuse _ _

theorem Record.stopsAt_ofFields (name : String) (fields : Fields) :
    StopsAt (Record.ofFields name fields) (Record.contentFlaws fields) := by
  rw [Record.ofFields, Record.contentFlaws, List.append_assoc, List.append_assoc]
  exact (Property.stopsAt_listOf fields).bind fun _ _ =>
    (Callable.stopsAt_listOf "functions" fields).bind fun _ _ =>
      (Callable.stopsAt_listOf "events" fields).bind fun _ _ => (Node.stopsAt_typesOf fields).map _

theorem Flaw.fault_within (name : String) (flaw : Flaw) :
    (flaw.within name).fault = flaw.fault.within name := by
  cases flaw <;> rfl

/-- The name of a record is added to whatever flaw is found in it. -/
theorem StopsAt.within {α : Type} {r : Except Fault α} {flaws : List Flaw} (name : String)
    (h : StopsAt r flaws) :
    StopsAt (r.mapError (Fault.within name)) (flaws.map (Flaw.within name)) := by
  cases flaws with
  | nil =>
    obtain ⟨a, rfl⟩ := h
    exact .ok a
  | cons flaw flaws =>
    obtain rfl : r = .error flaw.fault := h
    exact congrArg Except.error (Flaw.fault_within name flaw).symm

/-- **A record is read up to its first flaw.** -/
theorem Record.stopsAt_ofJson (v : Json) : StopsAt (Record.ofJson v) (Record.flaws v) := by
  cases v with
  | scalar s => exact .refuse _ _
  | arr items => exact .refuse _ _
  | obj fields =>
    rw [Record.flaws]
    simp only [Record.ofJson, expectObject, bind, Except.bind]
    rcases field "namespace" fields with (_ | _ | _ | _ | name) | vs | gs
    case scalar.str => exact (Record.stopsAt_ofFields name fields).within name
    all_goals exact .refuse _ _

/-- **A document is read up to its first flaw.** -/
theorem Record.stopsAt_listOfJson (v : Json) :
    StopsAt (Record.listOfJson v) (Record.listFlaws v) := by
  cases v with
  | scalar s => exact .refuse _ _
  | obj fields => exact .refuse _ _
  | arr vs =>
    simp only [Record.listOfJson, Record.listFlaws]
    induction vs with
    | nil => exact .ok []
    | cons v vs ih =>
      rw [List.mapM_cons, List.flatMap_cons]
      exact (Record.stopsAt_ofJson v).bind fun _ _ => ih.map _

end Typings.Schema
