import Mathlib.Data.List.Basic
import Typings.Expression.OfNode

/-!
# Parameters of the schema and their compiled forms

The parameters of a function are compiled one by one, and what is known of a compiled parameter is
known from the parameter of the schema alone. Where a function names one of its parameters, the
first of that name is meant.

Compiling a list of parameters never fails, as what may fail about a type is kept until the type is
used. So the compiled list is the image of the other one, and a search by name commutes with it.
-/

namespace Typings

open Schema (Node Parameter)

namespace Schema.Parameter

/-- May the parameter be left out? -/
def optional (p : Parameter) : Bool := p.node.info.optional

/-- The parameters of the function that the parameter is, if it is one. -/
def nested (p : Parameter) : List Parameter :=
  match p.node.shape with
  | .function parameters _ _ => parameters
  | _ => []

/-- The parameter with its types compiled. -/
def input (scope : Scope) (p : Parameter) : Input where
  name := p.name
  optional := p.optional
  description := p.node.info.description
  type := p.node.expression scope
  firstArgument := p.nested.head?.map fun q => q.node.expression scope

/-- The parameter is the first one of this name. -/
def IsFirst (name : String) (ps : List Parameter) (p : Parameter) : Prop :=
  p.name = .str name ∧ ∃ before behind, ps = before ++ p :: behind ∧
    ∀ q ∈ before, q.name ≠ .str name

variable {name : String} {ps : List Parameter} {p : Parameter}

theorem isFirst_iff : IsFirst name ps p ↔ ps.find? (fun q => q.name == .str name) = some p := by
  rw [List.find?_eq_some_iff_append]
  simp only [IsFirst, beq_iff_eq, Bool.not_eq_true', beq_eq_false_iff_ne, ne_eq]

theorem IsFirst.mem (h : IsFirst name ps p) : p ∈ ps := List.mem_of_find?_eq_some (isFirst_iff.mp h)

/-- Where there is a parameter of a name, there is a first one. -/
theorem exists_isFirst (h : ∃ p ∈ ps, p.name = .str name) : ∃ p, IsFirst name ps p := by
  obtain ⟨q, hq, hname⟩ := h
  have hsome : (ps.find? fun p => p.name == .str name).isSome = true :=
    List.find?_isSome.mpr ⟨q, hq, beq_iff_eq.mpr hname⟩
  obtain ⟨p, hp⟩ := Option.isSome_iff_exists.mp hsome
  exact ⟨p, isFirst_iff.mpr hp⟩

end Schema.Parameter

theorem firstArgument_compile (scope : Scope) (p : Parameter) :
    (compile scope p.node).firstArgument = (p.input scope).firstArgument := by
  obtain ⟨name, info, shape⟩ := p
  rcases shape with _ | _ | _ | (_ | items) | _ | _ | ⟨parameters, returns, async⟩ | _ |
    ⟨_ | properties, functions, events, _ | additional⟩ | _ | _
  case function =>
    rw [compile]
    rcases parameters with _ | ⟨⟨firstName, n⟩, rest⟩
    · rw [compileInputs]; rfl
    · rw [compileInputs]; rfl
  all_goals rw [compile]; rfl

/-- **Parameters are compiled one by one.** -/
theorem compileInputs_eq_map (scope : Scope) (ps : List Parameter) :
    compileInputs scope ps = ps.map (Parameter.input scope) := by
  induction ps with
  | nil => rw [compileInputs]; rfl
  | cons p ps ih =>
    have hfirst := firstArgument_compile scope p
    obtain ⟨name, n⟩ := p
    rw [compileInputs, ih, List.map_cons, hfirst]
    rfl

end Typings
