import Typings.Fault
import Typings.Json.Basic
import Typings.Json.Display

/-!
# Outcomes

What an operation leaves behind: the warnings it raised, in order, and either its value or
the fault that stopped it. Warnings raised before a fault are kept. An outcome is a plain
value, so one that is used twice is reported twice.

Warnings are problems that do not stop the generation: the declaration concerned is written with a
weaker type, and the problem is reported.
-/

namespace Typings

/-! ## Warnings -/

/-- A problem that is reported and survived. -/
inductive Warning where
  /-- No namespace declares the type that is referred to. -/
  | unresolvedReference (target : Json) (inNamespace : String)
  /-- An array type does not say what it holds; `id` is the name of the type. -/
  | arrayWithoutItems (id : Json) (inNamespace : String)
  /-- A function announces a way of returning its result that is not known. -/
  | unknownConvention (function async : Json) (inNamespace : String)
  /-- A directory of schema files is not there. -/
  | missingDirectory (path : String)
  deriving DecidableEq

/-- A warning in words. -/
def Warning.message : Warning → String
  | .unresolvedReference target ns =>
    "Unresolved reference '" ++ target.display ++ "' in namespace '" ++ ns ++ "'"
  | .arrayWithoutItems id ns =>
    "Array type without `items` in namespace '" ++ ns ++ "'" ++
      (if id.isSet then " (type '" ++ id.display ++ "')" else "")
  | .unknownConvention function async ns =>
    "Unknown async type, namespace '" ++ ns ++ "', function '" ++ function.display ++ "': " ++
      async.quoted
  | .missingDirectory path => "Directory not found: " ++ path

/-! ## Outcomes -/

/-- The warnings and the result of an operation. -/
structure Outcome (α : Type) where
  warnings : List Warning
  result : Except Fault α

namespace Outcome

variable {α β : Type}

/-- A value without warnings. -/
protected def pure (a : α) : Outcome α := ⟨[], .ok a⟩

/-- Go on with the value, if there is one. -/
protected def bind (o : Outcome α) (f : α → Outcome β) : Outcome β :=
  match o with
  | ⟨ws, .ok a⟩ => ⟨ws ++ (f a).warnings, (f a).result⟩
  | ⟨ws, .error e⟩ => ⟨ws, .error e⟩

instance : Monad Outcome where
  pure := Outcome.pure
  bind := Outcome.bind

/-- Raise a warning. -/
def warn (w : Warning) : Outcome Unit := ⟨[w], .ok ()⟩

/-- A result without warnings. -/
def ofExcept (r : Except Fault α) : Outcome α := ⟨[], r⟩

instance : MonadLift (Except Fault) Outcome := ⟨ofExcept⟩

@[simp] theorem pure_eq (a : α) : (pure a : Outcome α) = ⟨[], .ok a⟩ := rfl

@[simp] theorem ok_bind (ws : List Warning) (a : α) (f : α → Outcome β) :
    ((⟨ws, .ok a⟩ : Outcome α) >>= f) = ⟨ws ++ (f a).warnings, (f a).result⟩ := rfl

@[simp] theorem error_bind (ws : List Warning) (e : Fault) (f : α → Outcome β) :
    ((⟨ws, .error e⟩ : Outcome α) >>= f) = ⟨ws, .error e⟩ := rfl

theorem lift_eq (r : Except Fault α) : (liftM r : Outcome α) = ⟨[], r⟩ := rfl

@[simp] theorem lift_result (r : Except Fault α) : (liftM r : Outcome α).result = r := rfl

/-- A bind goes on with the value of its first part. -/
theorem bind_result {o : Outcome α} {a : α} (h : o.result = .ok a) (f : α → Outcome β) :
    (o >>= f).result = (f a).result := by
  rcases o with ⟨ws, r⟩
  subst h
  rfl

/-- A bind has a value exactly if both its parts have. -/
theorem bind_result_eq_ok {o : Outcome α} {f : α → Outcome β} {b : β} :
    (o >>= f).result = .ok b ↔ ∃ a, o.result = .ok a ∧ (f a).result = .ok b := by
  rcases o with ⟨ws, r⟩
  cases r with
  | error e => simp
  | ok a => simp

/-- A bind fails with the fault of its first part, or else of its second. -/
theorem bind_result_eq_error {o : Outcome α} {f : α → Outcome β} {e : Fault} :
    (o >>= f).result = .error e ↔
      o.result = .error e ∨ ∃ a, o.result = .ok a ∧ (f a).result = .error e := by
  rcases o with ⟨ws, r⟩
  cases r with
  | error e' => simp
  | ok a => simp

theorem pure_result_eq_ok {a b : α} : (pure a : Outcome α).result = .ok b ↔ a = b := by simp

theorem map_id_eq (o : Outcome α) : id <$> o = o := by
  rcases o with ⟨ws, r⟩
  cases r <;> simp [Functor.map, Outcome.bind, Outcome.pure]

theorem bind_assoc_eq {γ : Type} (o : Outcome α) (f : α → Outcome β) (g : β → Outcome γ) :
    o >>= f >>= g = o >>= fun a => f a >>= g := by
  rcases o with ⟨ws, r⟩
  cases r with
  | error e => rfl
  | ok a =>
    rcases h : f a with ⟨vs, s⟩
    cases s <;> simp [h]

instance : LawfulMonad Outcome :=
  LawfulMonad.mk' Outcome map_id_eq (fun a f => by simp) bind_assoc_eq

end Outcome

end Typings
