import Typings.Proofs.Composition.Types
import Typings.Proofs.WellTyped

/-!
# Well typed schemas can be written out

In a well typed schema references are texts and names are words, so nothing stops a type from
being written, and every function has the texts of its parameters, one list for each overload.
Which parameters callers see, and how they are written, depends on the convention and the
parameters of a function only, and not on what it returns.

This is a case of what is known of texts that are put together from names, where any text at all
counts as a name.
-/

namespace Typings

open Schema (Node Shape Parameter Callable Convention Typed Mentions)

namespace Signature

/-- The parameters that callers see. -/
def visibleInputs (s : Signature) : List Input :=
  match Convention.of s.async with
  | .direct => s.inputs
  | .promise => s.inputs
  | .callback name =>
    if (s.inputs.find? (Input.isNamed name)).isSome then
      s.inputs.filter fun p => !p.isNamed name
    else []
  | .unknown => []

/-- **Callers see the parameters that the convention leaves.** -/
theorem inputs_callShape {s : Signature} {current : String} {shape : CallShape}
    (h : (s.callShape current).result = .ok shape) : shape.inputs = s.visibleInputs := by
  unfold callShape at h
  unfold visibleInputs
  -- the promise and the result differ by convention, but the parameters only with a callback
  cases hasync : Convention.of s.async with
  | direct =>
    rw [hasync] at h
    obtain ⟨returns, -, h⟩ := Outcome.bind_result_eq_ok.mp h
    exact (Except.ok.inj h) ▸ rfl
  | promise =>
    rw [hasync] at h
    exact (Except.ok.inj h) ▸ rfl
  | unknown =>
    rw [hasync] at h
    exact (Except.ok.inj h) ▸ rfl
  | callback name =>
    rw [hasync] at h
    dsimp only at h ⊢
    cases hfind : s.inputs.find? (Input.isNamed name) with
    | none =>
      rw [hfind] at h
      exact (Except.ok.inj h) ▸ rfl
    | some callback =>
      rw [hfind] at h
      obtain ⟨value, -, h⟩ := Outcome.bind_result_eq_ok.mp h
      exact (Except.ok.inj h) ▸ rfl

/-- The parameter lists of a function as they are written, one for each overload. -/
def parameterTexts (current : String) (s : Signature) : Outcome (List (List String)) := do
  let shape ← s.callShape current
  Input.renderLists shape.overloads

/-- **The parameters of a function are written as its convention and its parameters say.** -/
theorem parameterTexts_ok {IsName : String → Prop} {s : Signature} (h : s.IsComposed IsName)
    (current : String) :
    ∃ lists, (s.parameterTexts current).result = .ok lists ∧
      (Input.renderLists (Overload.lists Input.optional s.visibleInputs)).result = .ok lists := by
  obtain ⟨shape, hshape, hcomposed⟩ := callShape_yields h current
  obtain ⟨lists, hlists, -⟩ := Input.renderLists_yields (overloads_composed hcomposed)
  refine ⟨lists, ?_, ?_⟩
  · unfold parameterTexts
    rw [Outcome.bind_result hshape, hlists]
  · rwa [← inputs_callShape hshape]

end Signature

/-! ## Well typed functions -/

/-- A well typed node mentions texts only. -/
theorem Schema.mentions_of_typed {ns : List Node} (h : Typed ns) :
    Mentions (fun _ => True) ns := by
  intro n hn
  obtain ⟨-, hshape⟩ := Bool.and_eq_true_iff.mp (h n hn)
  obtain ⟨i, s⟩ := n
  dsimp only at hshape ⊢
  cases s with
  | reference target => exact ⟨hshape, trivial⟩
  | function parameters returns async =>
    have hnames : parameters.all Parameter.isTyped = true := (Bool.and_eq_true_iff.mp hshape).2
    exact fun p hp => ⟨Json.isComposite_of_isWord (List.all_eq_true.mp hnames p hp), trivial⟩
  | _ => exact trivial

/-- A well typed function has a signature that is put together. -/
theorem signature_composed {c : Callable} (hc : c.isTyped = true) (h : Typed c.nodes)
    (scope : Scope) : (c.signature scope).IsComposed fun _ => True := by
  obtain ⟨-, hparameters⟩ := Bool.and_eq_true_iff.mp hc
  refine signature_yields (fun _ _ => trivial) (fun p hp => ?_) (Schema.mentions_of_typed h)
  exact ⟨Json.isComposite_of_isWord (List.all_eq_true.mp hparameters p hp), trivial⟩

end Typings
