import Typings.Proofs.Flaws

/-!
# Where choices without parts come from

Reading breaks off only if choices have no parts. If it does so on a document, then somewhere in
it, at whatever depth, is an object whose choices are a number or `true`. A document without such
an object is read, or refused with a word on what is wrong with it.

The recursion is the one that lists the flaws of a document. At every object the flaws that it adds
are accounted for: each is a problem that has a word of its own, or it comes from choices of an
object that is met on the way. So nothing has to be known of the order in which flaws are found.
-/

namespace Typings

namespace Json

mutual

/-- The objects in a value, at whatever depth. -/
def objects : Json → List Fields
  | .scalar _ => []
  | .arr items => objectsOfItems items
  | .obj fields => fields :: objectsOfFields fields

def objectsOfItems : List Json → List Fields
  | [] => []
  | v :: vs => v.objects ++ objectsOfItems vs

def objectsOfFields : List (String × Json) → List Fields
  | [] => []
  | (_, v) :: fields => v.objects ++ objectsOfFields fields

end

theorem eq_null_of_kind {v : Json} (h : v.kind = .null) : v = null := by
  rcases v with (_ | _ | _ | _ | _) | _ | _ <;> cases h
  rfl

theorem field_cons (key k : String) (v : Json) (fields : Fields) :
    field key ((k, v) :: fields) = if k = key then v else field key fields := by
  rw [field, Schema.field?_cons]
  split <;> rfl

theorem objects_field (key : String) (fields : Fields) :
    (field key fields).objects ⊆ objectsOfFields fields := by
  induction fields with
  | nil => exact List.nil_subset _
  | cons f fields ih =>
    obtain ⟨k, v⟩ := f
    rw [objectsOfFields, field_cons]
    split
    · exact List.subset_append_left _ _
    · exact List.subset_append_of_subset_right _ ih

end Json

namespace Schema

open Json (Fields field field_cons objects objectsOfItems objectsOfFields)

/-- The object has choices of this kind, which are a number or `true`. -/
structure HasBareChoices (found : Json.Kind) (fields : Fields) : Prop where
  set : (field "choices" fields).isSet = true
  kind : (field "choices" fields).kind = found
  bare : found ∈ [Json.Kind.bool, .int, .float]

theorem hasBareChoices {found : Json.Kind} {fields : Fields}
    (hset : (field "choices" fields).isSet = true) (hkind : (field "choices" fields).kind = found)
    (hbare : found ∈ [Json.Kind.null, .bool, .int, .float]) : HasBareChoices found fields := by
  refine ⟨hset, hkind, (List.mem_cons.mp hbare).resolve_left ?_⟩
  -- a value that is set is not null
  rintro rfl
  rw [Json.eq_null_of_kind hkind] at hset
  cases hset

/-- Where reading breaks off, one of these objects has choices without parts. -/
def Accounted (flaws : List Flaw) (os : List Fields) : Prop :=
  ∀ found, .bareChoices found ∈ flaws → ∃ fields ∈ os, HasBareChoices found fields

section Accounted

variable {flaws flaws' : List Flaw} {os os' : List Fields}

theorem Accounted.nil : Accounted [] os := fun _ h => absurd h List.not_mem_nil

theorem Accounted.cons (p : Problem) (h : Accounted flaws os) :
    Accounted (.problem p :: flaws) os := by
  intro found hmem
  rcases List.mem_cons.mp hmem with heq | hmem
  · cases heq
  · exact h found hmem

theorem Accounted.problem (p : Problem) : Accounted [.problem p] os := .cons p .nil

theorem Accounted.append (h : Accounted flaws os) (h' : Accounted flaws' os) :
    Accounted (flaws ++ flaws') os := fun found hmem =>
  (List.mem_append.mp hmem).elim (h found) (h' found)

theorem Accounted.ite {c : Prop} [Decidable c] (h : Accounted flaws os)
    (h' : Accounted flaws' os) : Accounted (if c then flaws else flaws') os := by
  split
  · exact h
  · exact h'

theorem Accounted.mono (h : Accounted flaws os) (hos : os ⊆ os') : Accounted flaws os' := by
  intro found hmem
  obtain ⟨fields, hfields, hbare⟩ := h found hmem
  exact ⟨fields, hos hfields, hbare⟩

theorem Accounted.within (name : String) (h : Accounted flaws os) :
    Accounted (flaws.map (Flaw.within name)) os := by
  intro found hmem
  obtain ⟨flaw, hflaw, hwithin⟩ := List.mem_map.mp hmem
  cases flaw with
  | problem p => cases hwithin
  | bareChoices found' =>
    cases hwithin
    exact h found hflaw

end Accounted

theorem accounted_memberFlaws (members : List Json) (os : List Fields) :
    Accounted (memberFlaws members) os := by
  induction members with
  | nil => exact .nil
  | cons v rest ih =>
    cases v with
    | obj fields => exact .ite ih (.cons _ ih)
    | scalar s => exact ih
    | arr items => exact ih

theorem accounted_enumFlaws (fields : Fields) (os : List Fields) :
    Accounted (enumFlaws fields) os := by
  unfold enumFlaws
  cases field "enum" fields with
  | arr members => exact accounted_memberFlaws members os
  | scalar s => exact .nil
  | obj fields => exact .nil

theorem accounted_parameterFlaws (v : Json) (os : List Fields) :
    Accounted (parameterFlaws v) os := by
  cases v with
  | obj fields => exact .ite .nil (.problem _)
  | scalar s => exact .problem _
  | arr items => exact .problem _

mutual

/-- **A type whose reading breaks off has an object in it whose choices have no parts.** -/
theorem Node.accounted : (v : Json) → Accounted (Node.flaws v) v.objects
  | .obj fields => by
    have hitems := Node.accounted_flawsOf "items" fields
    have hreturns := Node.accounted_flawsOf "returns" fields
    have hchoices := Node.accounted_choiceFlaws fields
    have hparameters := Parameter.accounted_listFlaws fields
    have hproperties := Property.accounted_listFlaws fields
    have hadditional := Node.accounted_additionalFlaws fields
    have hfunctions := Callable.accounted_listFlaws "functions" fields
    have hevents := Callable.accounted_listFlaws "events" fields
    have hinner := List.subset_cons_self fields (objectsOfFields fields)
    rw [Node.flaws, objects]
    refine .ite .nil (.ite .nil (.ite .nil (.ite ?_ (.ite ?_ (.ite .nil ?_)))))
    · exact accounted_enumFlaws fields _
    · exact hitems.mono hinner
    · split
      case isTrue hset =>
        -- the choices of this object, or those of one inside it
        intro found hmem
        rcases hchoices found hmem with h | ⟨hkind, hbare⟩
        · exact h.imp fun _ ⟨hgs, h⟩ => ⟨hinner hgs, h⟩
        · exact ⟨fields, List.mem_cons_self, hasBareChoices hset hkind hbare⟩
      case isFalse =>
        refine .ite ?_ (.ite .nil (.ite ?_ .nil))
        · exact (hparameters.append hreturns).mono hinner
        · exact (((hproperties.append hadditional).append hfunctions).append hevents).mono hinner
  | .scalar s => .problem _
  | .arr items => .problem _

theorem Node.accounted_flawsOf (key : String) : (fields : List (String × Json)) →
    Accounted (Node.flawsOf key fields) (objectsOfFields fields)
  | [] => .nil
  | (k, v) :: fields => by
    rw [Node.flawsOf, objectsOfFields]
    exact .ite ((Node.accounted v).mono (List.subset_append_left _ _))
      ((Node.accounted_flawsOf key fields).mono (List.subset_append_right _ _))

theorem Node.accounted_flawsOfAll : (vs : List Json) →
    Accounted (Node.flawsOfAll vs) (objectsOfItems vs)
  | [] => .nil
  | v :: vs => by
    rw [Node.flawsOfAll, objectsOfItems]
    exact ((Node.accounted v).mono (List.subset_append_left _ _)).append
      ((Node.accounted_flawsOfAll vs).mono (List.subset_append_right _ _))

theorem Node.accounted_choiceFlaws : (fields : List (String × Json)) → ∀ found,
    .bareChoices found ∈ Node.choiceFlaws fields →
      (∃ gs ∈ objectsOfFields fields, HasBareChoices found gs) ∨
        (field "choices" fields).kind = found ∧ found ∈ [Json.Kind.null, .bool, .int, .float]
  | [], _, hmem => absurd hmem List.not_mem_nil
  | (k, v) :: fields, found, hmem => by
    rw [Node.choiceFlaws.eq_def] at hmem
    dsimp only at hmem
    rw [objectsOfFields, field_cons]
    -- a field of another name leaves the choices to the fields behind it
    by_cases hk : k = "choices"
    case neg =>
      rw [if_neg hk] at hmem ⊢
      exact (Node.accounted_choiceFlaws fields found hmem).imp_left fun ⟨gs, hgs, h⟩ =>
        ⟨gs, List.mem_append_right _ hgs, h⟩
    case pos =>
      rw [if_pos hk] at hmem ⊢
      rcases v with (_ | _ | _ | _ | _) | vs | gs
      case arr =>
        exact .inl ((Node.accounted_flawsOfAll vs).mono (List.subset_append_left _ _) found hmem)
      case scalar.str => cases List.mem_singleton.mp hmem
      case obj => cases List.mem_singleton.mp hmem
      -- a value without parts is itself what the flaw tells of
      all_goals
        cases List.mem_singleton.mp hmem
        exact .inr ⟨rfl, by simp [Json.kind]⟩

theorem Node.accounted_additionalFlaws : (fields : List (String × Json)) →
    Accounted (Node.additionalFlaws fields) (objectsOfFields fields)
  | [] => .nil
  | (k, v) :: fields => by
    rw [Node.additionalFlaws.eq_def, objectsOfFields]
    refine .ite ?_
      ((Node.accounted_additionalFlaws fields).mono (List.subset_append_right _ _))
    cases v with
    | obj gs => exact (Node.accounted (.obj gs)).mono (List.subset_append_left _ _)
    | scalar s => exact .nil
    | arr vs => exact .nil

theorem Parameter.accounted_flawsOfAll : (vs : List Json) →
    Accounted (Parameter.flawsOfAll vs) (objectsOfItems vs)
  | [] => .nil
  | v :: vs => by
    rw [Parameter.flawsOfAll, objectsOfItems]
    exact ((accounted_parameterFlaws v _).append
      ((Node.accounted v).mono (List.subset_append_left _ _))).append
        ((Parameter.accounted_flawsOfAll vs).mono (List.subset_append_right _ _))

theorem Parameter.accounted_listFlaws : (fields : List (String × Json)) →
    Accounted (Parameter.listFlaws fields) (objectsOfFields fields)
  | [] => .nil
  | (k, v) :: fields => by
    rw [Parameter.listFlaws.eq_def, objectsOfFields]
    refine .ite ?_ ((Parameter.accounted_listFlaws fields).mono (List.subset_append_right _ _))
    rcases v with (_ | _ | _ | _ | _) | vs | gs
    case arr => exact (Parameter.accounted_flawsOfAll vs).mono (List.subset_append_left _ _)
    case scalar.null => exact .nil
    all_goals exact .problem _

theorem Property.accounted_flawsOfAll : (fields : List (String × Json)) →
    Accounted (Property.flawsOfAll fields) (objectsOfFields fields)
  | [] => .nil
  | (_, v) :: fields => by
    rw [Property.flawsOfAll, objectsOfFields]
    exact ((Node.accounted v).mono (List.subset_append_left _ _)).append
      ((Property.accounted_flawsOfAll fields).mono (List.subset_append_right _ _))

theorem Property.accounted_listFlaws : (fields : List (String × Json)) →
    Accounted (Property.listFlaws fields) (objectsOfFields fields)
  | [] => .nil
  | (k, v) :: fields => by
    rw [Property.listFlaws.eq_def, objectsOfFields]
    refine .ite ?_ ((Property.accounted_listFlaws fields).mono (List.subset_append_right _ _))
    cases v with
    | obj gs =>
      exact (Property.accounted_flawsOfAll gs).mono
        (List.subset_append_of_subset_left _ (List.subset_cons_self _ _))
    | scalar s => exact .problem _
    | arr vs => exact .problem _

theorem Callable.accounted : (v : Json) → Accounted (Callable.flaws v) v.objects
  | .obj fields => by
    rw [Callable.flaws, objects]
    exact (((Accounted.ite .nil (.problem _)).append (Parameter.accounted_listFlaws fields)).append
      (Node.accounted_flawsOf "returns" fields)).mono (List.subset_cons_self _ _)
  | .scalar s => .problem _
  | .arr items => .problem _

theorem Callable.accounted_flawsOfAll : (vs : List Json) →
    Accounted (Callable.flawsOfAll vs) (objectsOfItems vs)
  | [] => .nil
  | v :: vs => by
    rw [Callable.flawsOfAll, objectsOfItems]
    exact ((Callable.accounted v).mono (List.subset_append_left _ _)).append
      ((Callable.accounted_flawsOfAll vs).mono (List.subset_append_right _ _))

theorem Callable.accounted_listFlaws (key : String) : (fields : List (String × Json)) →
    Accounted (Callable.listFlaws key fields) (objectsOfFields fields)
  | [] => .nil
  | (k, v) :: fields => by
    rw [Callable.listFlaws.eq_def, objectsOfFields]
    refine .ite ?_
      ((Callable.accounted_listFlaws key fields).mono (List.subset_append_right _ _))
    rcases v with (_ | _ | _ | _ | _) | vs | gs
    case arr => exact (Callable.accounted_flawsOfAll vs).mono (List.subset_append_left _ _)
    case scalar.null => exact .nil
    all_goals exact .problem _

end

/-! ## Records and documents -/

theorem Node.accounted_typeFlaws (fields : Fields) :
    Accounted (Node.typeFlaws fields) (objectsOfFields fields) := by
  have hobjects := Json.objects_field "types" fields
  unfold Node.typeFlaws
  generalize field "types" fields = v at hobjects ⊢
  rcases v with (_ | _ | _ | _ | _) | vs | gs
  case arr => exact (Node.accounted_flawsOfAll vs).mono hobjects
  case scalar.null => exact .nil
  all_goals exact .problem _

theorem Record.accounted (v : Json) : Accounted (Record.flaws v) v.objects := by
  cases v with
  | scalar s => exact .problem _
  | arr items => exact .problem _
  | obj fields =>
    have hcontent : Accounted (Record.contentFlaws fields) (objectsOfFields fields) :=
      (((Property.accounted_listFlaws fields).append
        (Callable.accounted_listFlaws "functions" fields)).append
          (Callable.accounted_listFlaws "events" fields)).append (Node.accounted_typeFlaws fields)
    rw [Record.flaws, objects]
    rcases field "namespace" fields with (_ | _ | _ | _ | name) | vs | gs
    case scalar.str => exact (hcontent.within name).mono (List.subset_cons_self _ _)
    -- a record without a text for its name has one flaw, which is a problem
    all_goals exact .problem _

/-- **A document whose reading breaks off has an object in it whose choices have no parts.** -/
theorem Record.accounted_listFlaws (v : Json) : Accounted (Record.listFlaws v) v.objects := by
  cases v with
  | scalar s => exact .problem _
  | obj fields => exact .problem _
  | arr vs =>
    simp only [Record.listFlaws, objects]
    induction vs with
    | nil => exact .nil
    | cons v vs ih =>
      rw [List.flatMap_cons, objectsOfItems]
      exact ((Record.accounted v).mono (List.subset_append_left _ _)).append
        (ih.mono (List.subset_append_right _ _))

end Schema

end Typings
