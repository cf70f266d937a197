import Typings.Proofs.TypeSyntax.Translation
import Typings.Schema.OfJson

/-!
# A choice has something to choose from

An empty list of choices is not set, so a schema that has one describes something else. In
what is read from JSON no choice is empty, at any depth.

The recursion is that of the reader. Only in one place does it make a node with choices, and there
the list has been looked at before.
-/

namespace Typings.TypeSyntax

open Schema (Node Shape Parameter Property)
open Json (Fields field field?)
open Fault (bind_eq_ok map_eq_ok ite_eq_ok)

theorem listOfJson_ne_nil {vs : List Json} {ns : List Node} (h : Node.listOfJson vs = .ok ns)
    (hne : vs ≠ []) : ns ≠ [] := by
  cases vs with
  | nil => exact absurd rfl hne
  | cons v vs =>
    rw [Node.listOfJson, bind_eq_ok] at h
    obtain ⟨n, -, h⟩ := h
    obtain ⟨ns, -, h⟩ := bind_eq_ok.mp h
    rintro rfl
    cases h

/-- Where choices are set, there are some. -/
theorem choicesOf_ne_nil {fields : Fields} {ns : List Node} (h : Node.choicesOf fields = .ok ns)
    (hset : (field "choices" fields).isSet = true) : ns ≠ [] := by
  rw [Node.choicesOf_eq] at h
  unfold field at hset
  split at h
  case h_1 hnone => rw [hnone] at hset; exact absurd hset (by decide)
  case h_2 vs hvs =>
    rw [hvs] at hset
    refine listOfJson_ne_nil h ?_
    rintro rfl
    exact absurd hset (by decide)
  case h_3 => cases h
  case h_4 => cases h
  case h_5 => cases h

mutual

/-- **No choice in a type that was read is empty.** -/
theorem ofJson_hasOptions : (v : Json) → ∀ n, Node.ofJson v = .ok n → Everywhere HasOptions n
  | .scalar _, n, h => by
    unfold Node.ofJson at h
    cases h
  | .arr _, n, h => by
    unfold Node.ofJson at h
    cases h
  | .obj fields, n, h => by
    rw [Node.ofJson, map_eq_ok] at h
    obtain ⟨s, hs, rfl⟩ := h
    -- a reference, and the two kinds of numbers
    rcases ite_eq_ok.mp hs with ⟨-, hs⟩ | ⟨-, hs⟩
    · cases hs; trivial
    rcases ite_eq_ok.mp hs with ⟨-, hs⟩ | ⟨-, hs⟩
    · cases hs; trivial
    rcases ite_eq_ok.mp hs with ⟨-, hs⟩ | ⟨-, hs⟩
    · cases hs; trivial
    -- a text
    rcases ite_eq_ok.mp hs with ⟨-, hs⟩ | ⟨-, hs⟩
    · obtain ⟨members, -, rfl⟩ := map_eq_ok.mp hs
      trivial
    -- an array
    rcases ite_eq_ok.mp hs with ⟨-, hs⟩ | ⟨-, hs⟩
    · obtain ⟨items, hitems, rfl⟩ := map_eq_ok.mp hs
      have hrest := ofField_hasOptions "items" fields items hitems
      cases items with
      | none => trivial
      | some n => exact ⟨trivial, hrest⟩
    rcases ite_eq_ok.mp hs with ⟨-, hs⟩ | ⟨-, hs⟩
    · cases hs; trivial
    -- a choice
    rcases ite_eq_ok.mp hs with ⟨hset, hs⟩ | ⟨-, hs⟩
    · obtain ⟨options, hoptions, rfl⟩ := map_eq_ok.mp hs
      exact ⟨choicesOf_ne_nil hoptions hset, choicesOf_hasOptions fields options hoptions⟩
    -- a function
    rcases ite_eq_ok.mp hs with ⟨-, hs⟩ | ⟨-, hs⟩
    · obtain ⟨parameters, hparameters, hs⟩ := bind_eq_ok.mp hs
      obtain ⟨returns, hreturns, hs⟩ := bind_eq_ok.mp hs
      cases hs
      exact ⟨trivial, listOfParameters_hasOptions fields parameters hparameters,
        ofField_hasOptions "returns" fields returns hreturns⟩
    rcases ite_eq_ok.mp hs with ⟨-, hs⟩ | ⟨-, hs⟩
    · cases hs; trivial
    -- an object
    rcases ite_eq_ok.mp hs with ⟨-, hs⟩ | ⟨-, hs⟩
    · obtain ⟨properties, hproperties, hs⟩ := bind_eq_ok.mp hs
      obtain ⟨additional, hadditional, hs⟩ := bind_eq_ok.mp hs
      obtain ⟨functions, -, hs⟩ := bind_eq_ok.mp hs
      obtain ⟨events, -, hs⟩ := bind_eq_ok.mp hs
      cases hs
      have hindex := additionalOf_hasOptions fields additional hadditional
      have hmembers := listOfProperties_hasOptions fields properties hproperties
      cases properties with
      | none => exact ⟨trivial, hindex⟩
      | some ps => exact ⟨trivial, hmembers ps rfl, hindex⟩
    -- a bare value, and anything else
    rcases ite_eq_ok.mp hs with ⟨-, hs⟩ | ⟨-, hs⟩
    · cases hs
      unfold Shape.ofValue
      split <;> trivial
    · cases hs; trivial

theorem ofField_hasOptions (key : String) : (fields : List (String × Json)) → ∀ o,
    Node.ofField key fields = .ok o → EverywhereOption HasOptions o
  | [], o, h => by
    rw [Node.ofField] at h
    cases h
    trivial
  | (k, v) :: fields, o, h => by
    rw [Node.ofField] at h
    split at h
    · obtain ⟨n, hn, rfl⟩ := map_eq_ok.mp h
      exact ofJson_hasOptions v n hn
    · exact ofField_hasOptions key fields o h

theorem listOfJson_hasOptions : (vs : List Json) → ∀ ns, Node.listOfJson vs = .ok ns →
    EverywhereList HasOptions ns
  | [], ns, h => by
    rw [Node.listOfJson] at h
    cases h
    trivial
  | v :: vs, ns, h => by
    rw [Node.listOfJson, bind_eq_ok] at h
    obtain ⟨n, hn, h⟩ := h
    obtain ⟨ns, hns, h⟩ := bind_eq_ok.mp h
    cases h
    exact ⟨ofJson_hasOptions v n hn, listOfJson_hasOptions vs ns hns⟩

theorem choicesOf_hasOptions : (fields : List (String × Json)) → ∀ ns,
    Node.choicesOf fields = .ok ns → EverywhereList HasOptions ns
  | [], ns, h => by
    rw [Node.choicesOf] at h
    cases h
    trivial
  | (k, v) :: fields, ns, h => by
    unfold Node.choicesOf at h
    split at h
    · cases v with
      | arr vs => exact listOfJson_hasOptions vs ns h
      | obj gs => cases h
      | scalar s => cases s <;> cases h
    · exact choicesOf_hasOptions fields ns h

theorem additionalOf_hasOptions : (fields : List (String × Json)) → ∀ o,
    Node.additionalOf fields = .ok o → EverywhereOption HasOptions o
  | [], o, h => by
    rw [Node.additionalOf] at h
    cases h
    trivial
  | (k, v) :: fields, o, h => by
    unfold Node.additionalOf at h
    split at h
    · cases v with
      | arr vs => cases h; trivial
      | obj gs =>
        obtain ⟨n, hn, rfl⟩ := map_eq_ok.mp h
        exact ofJson_hasOptions (.obj gs) n hn
      | scalar s =>
        cases s with
        | bool b => cases b <;> cases h <;> trivial
        | _ => cases h; trivial
    · exact additionalOf_hasOptions fields o h

theorem listOfParameters_hasOptions : (fields : List (String × Json)) → ∀ ps,
    Parameter.listOf fields = .ok ps → EverywhereParameters HasOptions ps
  | [], ps, h => by
    rw [Parameter.listOf] at h
    cases h
    trivial
  | (k, v) :: fields, ps, h => by
    unfold Parameter.listOf at h
    split at h
    · cases v with
      | arr vs => exact parametersOfJson_hasOptions vs ps h
      | obj gs => cases h
      | scalar s =>
        cases s with
        | null => cases h; trivial
        | _ => cases h
    · exact listOfParameters_hasOptions fields ps h

theorem parametersOfJson_hasOptions : (vs : List Json) → ∀ ps,
    Parameter.listOfJson vs = .ok ps → EverywhereParameters HasOptions ps
  | [], ps, h => by
    rw [Parameter.listOfJson] at h
    cases h
    trivial
  | v :: vs, ps, h => by
    rw [Parameter.listOfJson, bind_eq_ok] at h
    obtain ⟨name, -, h⟩ := h
    obtain ⟨n, hn, h⟩ := bind_eq_ok.mp h
    obtain ⟨ps, hps, h⟩ := bind_eq_ok.mp h
    cases h
    exact ⟨ofJson_hasOptions v n hn, parametersOfJson_hasOptions vs ps hps⟩

theorem listOfProperties_hasOptions : (fields : List (String × Json)) → ∀ o,
    Property.listOf fields = .ok o → ∀ ps, o = some ps → EverywhereProperties HasOptions ps
  | [], o, h => by
    rw [Property.listOf] at h
    cases h
    simp
  | (k, v) :: fields, o, h => by
    unfold Property.listOf at h
    split at h
    -- properties that are no object are refused
    · cases v with
      | obj gs =>
        obtain ⟨ps, hps, rfl⟩ := map_eq_ok.mp h
        intro _ heq
        exact Option.some.inj heq ▸ propertiesOfJson_hasOptions gs ps hps
      | arr vs => cases h
      | scalar s => cases h
    · exact listOfProperties_hasOptions fields o h

theorem propertiesOfJson_hasOptions : (fields : List (String × Json)) → ∀ ps,
    Property.ofFields fields = .ok ps → EverywhereProperties HasOptions ps
  | [], ps, h => by
    rw [Property.ofFields] at h
    cases h
    trivial
  | (name, v) :: fields, ps, h => by
    rw [Property.ofFields, bind_eq_ok] at h
    obtain ⟨n, hn, h⟩ := h
    obtain ⟨ps, hps, h⟩ := bind_eq_ok.mp h
    cases h
    exact ⟨ofJson_hasOptions v n hn, propertiesOfJson_hasOptions fields ps hps⟩

end

end Typings.TypeSyntax
