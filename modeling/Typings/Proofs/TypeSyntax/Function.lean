import Mathlib.Data.Option.Basic
import Typings.Proofs.OverloadLists
import Typings.Proofs.TypeSyntax.Rendering
import Typings.Proofs.TypeSyntax.Translation
import Typings.Proofs.WrittenTypes

/-!
# Function types mean what their tree says

A function's parameters are compiled and translated one by one. Whatever is done with both
then, leaving out the callback and going through the overloads, keeps them together, so each
overload's text is the arrow that the translation has at the same place.

Both sides run the same steps over lists of the same length: what is compiled and what is
translated of a parameter stand at the same place, with the same name and the same marks. This is
kept by each step, and a member of the one list never has to be looked up in the other.
-/

namespace Typings.TypeSyntax

open Schema (Convention)

/-- A compiled type is there, and its text writes this tree. -/
def Yields (o : Outcome Expression) (t : Tree) : Prop :=
  ∃ s, o.result = .ok (.text s) ∧ Writes s t

theorem yields_text {s : String} {t : Tree} (h : Writes s t) : Yields (return .text s) t :=
  ⟨s, rfl, h⟩

/-- An identifier is a type. -/
theorem writes_name {s : String} (h : PropertyKey.isIdentifier s.toList = true) :
    Writes s (.name s) := writes_leaf (reads_identifier h) (.name (.identifier h))

/-! ## Lists that go together -/

section Forall₂

variable {α β : Type} {R : α → β → Prop} {f : α → Bool} {g : β → Bool}

/-- Of members that go together, those that are found first do. -/
theorem rel_find? (hfg : ∀ a b, R a b → f a = g b) {as : List α} {bs : List β}
    (h : List.Forall₂ R as bs) : Option.Rel R (as.find? f) (bs.find? g) := by
  induction h with
  | nil => exact .none
  | @cons a b as bs hab _ ih =>
    rw [List.find?_cons, List.find?_cons, hfg a b hab]
    cases g b with
    | true => exact .some hab
    | false => exact ih

theorem forall₂_filter (hfg : ∀ a b, R a b → f a = g b) {as : List α} {bs : List β}
    (h : List.Forall₂ R as bs) : List.Forall₂ R (as.filter f) (bs.filter g) := by
  induction h with
  | nil => exact .nil
  | @cons a b as bs hab _ ih =>
    rw [List.filter_cons, List.filter_cons, hfg a b hab]
    split
    · exact .cons hab ih
    · exact ih

theorem any_congr (hfg : ∀ a b, R a b → f a = g b) {as : List α} {bs : List β}
    (h : List.Forall₂ R as bs) : as.any f = bs.any g := by
  induction h with
  | nil => rfl
  | @cons a b as bs hab _ ih => rw [List.any_cons, List.any_cons, hfg a b hab, ih]

theorem all_congr (hfg : ∀ a b, R a b → f a = g b) {as : List α} {bs : List β}
    (h : List.Forall₂ R as bs) : as.all f = bs.all g := by
  induction h with
  | nil => rfl
  | @cons a b as bs hab _ ih => rw [List.all_cons, List.all_cons, hfg a b hab, ih]

theorem isEmpty_congr {as : List α} {bs : List β} (h : List.Forall₂ R as bs) :
    as.isEmpty = bs.isEmpty := by
  cases h <;> rfl

theorem hasFixed_congr (hfg : ∀ a b, R a b → f a = g b) {allOptional : Bool} {as : List α}
    {bs : List β} (h : List.Forall₂ R as bs) :
    Overload.hasFixed f allOptional as = Overload.hasFixed g allOptional bs := by
  unfold Overload.hasFixed
  rw [isEmpty_congr h, any_congr (fun a b hab => by rw [hfg a b hab]) h]

theorem forall₂_shortened (hfg : ∀ a b, R a b → f a = g b) {stays : List α → Bool}
    {stays' : List β → Bool}
    (hstays : ∀ as bs, List.Forall₂ R as bs → stays as = stays' bs) {as : List α} {bs : List β}
    (h : List.Forall₂ R as bs) :
    List.Forall₂ (List.Forall₂ R) (Overload.shortened f stays as)
      (Overload.shortened g stays' bs) := by
  induction h with
  | nil => exact .nil
  | @cons a b as bs hab hrest ih =>
    rw [Overload.shortened, Overload.shortened, hfg a b hab, hstays as bs hrest]
    split
    · -- the parameter is left out, and so it is in all overloads that follow
      exact .cons hrest ih
    · rw [List.forall₂_map_left_iff, List.forall₂_map_right_iff]
      exact ih.imp fun _ _ h => .cons hab h

/-- **The overloads of parameters that go together go together.** -/
theorem forall₂_lists (hfg : ∀ a b, R a b → f a = g b) {as : List α} {bs : List β}
    (h : List.Forall₂ R as bs) :
    List.Forall₂ (List.Forall₂ R) (Overload.lists f as) (Overload.lists g bs) := by
  rw [Overload.lists_eq_shortened, Overload.lists_eq_shortened, all_congr hfg h]
  exact List.rel_append (forall₂_shortened hfg (fun _ _ => hasFixed_congr hfg) h) (.cons h .nil)

end Forall₂

/-! ## Parameters -/

/-- A compiled parameter and a translated one are the same. -/
structure Corresponds (p : Input) (q : Argument) : Prop where
  name : p.name = q.name
  identifier : ∃ s, q.name = .str s ∧ PropertyKey.isIdentifier s.toList = true
  optional : p.optional = q.optional
  type : Yields p.type q.type
  firstArgument : Option.Rel Yields p.firstArgument q.firstArgument

theorem Corresponds.isNamed {p : Input} {q : Argument} (h : Corresponds p q) (s : String) :
    p.isNamed s = q.isNamed s := by
  unfold Input.isNamed Argument.isNamed
  rw [h.name]

theorem Corresponds.isCallback {p : Input} {q : Argument} (h : Corresponds p q) :
    p.isCallback = q.isCallback := by
  obtain ⟨s, hs, -⟩ := h.identifier
  unfold Input.isCallback Argument.isCallback
  rw [h.name, hs]

theorem isIdentifier_cons_mark {s : List Char} (h : PropertyKey.isIdentifier s = true) :
    PropertyKey.isIdentifier ('_' :: s) = true := by
  rw [PropertyKey.isIdentifier, Bool.and_eq_true_iff]
  exact ⟨by decide, List.all_eq_true.mpr (PropertyKey.isPart_of_isIdentifier h)⟩

/-- A reserved word with the mark in front of it is an identifier like any other. -/
theorem isIdentifier_declaredName {q : Argument} {s : String} (hs : q.name = .str s)
    (h : PropertyKey.isIdentifier s.toList = true) :
    PropertyKey.isIdentifier q.declaredName.toList = true := by
  unfold Argument.declaredName
  rw [hs]
  dsimp only
  split
  · rw [String.toList_append]
    exact isIdentifier_cons_mark h
  · exact h

theorem Corresponds.declaredName {p : Input} {q : Argument} (h : Corresponds p q) :
    p.declaredName = .ok q.declaredName := by
  obtain ⟨s, hs, -⟩ := h.identifier
  unfold Input.declaredName Argument.declaredName
  rw [h.name, hs]
  cases hreserved : Reserved.isReserved s with
  | false => simp only [Reserved.covers, hreserved]; rfl
  | true => simp only [Reserved.covers, hreserved]; rfl

/-- **A parameter's text is an entry** with its label. -/
theorem Corresponds.render {p : Input} {q : Argument} (h : Corresponds p q) (trailing : Bool) :
    ∃ s, (p.render trailing).result = .ok s ∧
      WritesEntry .parameters s (q.label trailing) q.type := by
  obtain ⟨name, hname, hidentifier⟩ := h.identifier
  obtain ⟨type, htype, hwrites⟩ := h.type
  have hdeclared := isIdentifier_declaredName hname hidentifier
  refine ⟨_, ?_, writesEntry_named (.name hdeclared _) (reads_identifier hdeclared) hwrites⟩
  unfold Input.render
  rw [h.declaredName, Outcome.bind_result (Outcome.lift_result _), Outcome.bind_result htype,
    Input.mark, h.optional, h.isCallback]
  rfl

theorem renderAll_writes {ps : List Input} {qs : List Argument}
    (h : List.Forall₂ Corresponds ps qs) :
    ∃ ss, (Input.renderAll ps).result = .ok ss ∧
      WritesFields .parameters ss (Argument.fields qs) := by
  induction h with
  | nil => exact ⟨[], rfl, .nil⟩
  | @cons p q ps qs hpq hrest ih =>
    obtain ⟨s, hs, hentry⟩ := hpq.render qs.isEmpty
    obtain ⟨ss, hss, hfields⟩ := ih
    refine ⟨s :: ss, ?_, .cons hentry hfields⟩
    rw [Input.renderAll, isEmpty_congr hrest, Outcome.bind_result hs, Outcome.bind_result hss]
    rfl

/-! ## Results -/

/-- **A promise's text is one.** -/
theorem writes_promise {s : String} {t : Tree} (h : Writes s t) :
    Writes ("Promise<" ++ s ++ ">") (.promise t) := by
  obtain ⟨xs, hs, hder⟩ := h.derives
  have hopen : Closes "Promise<" [.word "Promise", .sign '<'] := fun _ => rfl
  have hclose : Closes ">" [.sign '>'] := fun _ => rfl
  have hreads := (hopen.append_reads hs).append_closes (by decide) rfl hclose
  exact .operand hreads.reads (.primary (.promise hder))

/-- **What a callback is called with is what the promise resolves to.** -/
theorem Corresponds.resolvedType {p : Input} {q : Argument} (h : Corresponds p q) :
    ∃ s, (Signature.resolvedType p).result = .ok s ∧ Writes s q.resolved := by
  have hfirst := h.firstArgument
  unfold Signature.resolvedType Argument.resolved
  rw [h.optional]
  generalize p.firstArgument = first at hfirst ⊢
  generalize q.firstArgument = tree at hfirst ⊢
  cases hfirst with
  | none => exact ⟨"any", rfl, writes_name (by decide)⟩
  | @some o t hyields =>
    obtain ⟨s, hs, hwrites⟩ := hyields
    dsimp only
    rw [Outcome.bind_result hs]
    cases q.optional with
    | false => exact ⟨s, rfl, hwrites⟩
    | true =>
      -- without parentheses around it, a function type would swallow the option behind it
      obtain ⟨xs, hxs, hder⟩ := hwrites.parenthesizeText.2
      have hname : Derives .union [.word "undefined"] (.name "undefined") :=
        .operand (.primary (.leaf (.name (.identifier (by decide)))))
      have hreads := reads_bar hxs (reads_identifier (s := "undefined") (by decide))
      have htext : Expression.parenthesizeText s ++ " | undefined" =
          Expression.parenthesizeText s ++ " | " ++ "undefined" := by
        rw [String.append_assoc]
        rfl
      refine ⟨_, rfl, ?_⟩
      show Writes (Expression.parenthesizeText s ++ " | undefined") _
      rw [htext]
      exact .union hreads (hder.bar_union hname) (mentions_append _ _ rfl)

/-- What callers see of a function, compiled and translated. -/
structure CallCorresponds (shape : CallShape) (call : Tree × List Argument) : Prop where
  returns : ∃ s, shape.returns = .text s ∧ Writes s call.1
  inputs : List.Forall₂ Corresponds shape.inputs call.2

/-- **Callers see the same of a function.** -/
theorem callShape_corresponds (current : String) {s : Signature} {qs : List Argument}
    {output : Tree} (hinputs : List.Forall₂ Corresponds s.inputs qs)
    (houtput : Yields s.output output) :
    ∃ shape, (s.callShape current).result = .ok shape ∧
      CallCorresponds shape (Argument.call s.async qs output) := by
  have hany : ∃ r, Signature.untypedPromise = .text r ∧ Writes r (.promise (.name "any")) :=
    ⟨_, rfl, writes_promise (writes_name (by decide))⟩
  unfold Signature.callShape Argument.call
  cases Convention.of s.async with
  | direct =>
    obtain ⟨r, hr, hwrites⟩ := houtput
    dsimp only
    rw [Outcome.bind_result hr]
    exact ⟨_, rfl, ⟨r, rfl, hwrites⟩, hinputs⟩
  | promise => exact ⟨_, rfl, hany, hinputs⟩
  | unknown => exact ⟨_, rfl, hany, .nil⟩
  | callback name =>
    have hnamed : ∀ p q, Corresponds p q → p.isNamed name = q.isNamed name :=
      fun _ _ h => h.isNamed name
    have hfind := rel_find? hnamed hinputs
    dsimp only
    generalize s.inputs.find? (Input.isNamed name) = found at hfind ⊢
    generalize qs.find? (Argument.isNamed name) = found' at hfind ⊢
    cases hfind with
    | none =>
      -- no parameter has the name of the callback, and none is kept
      exact ⟨_, rfl, hany, .nil⟩
    | @some p q hpq =>
      obtain ⟨value, hvalue, hwrites⟩ := hpq.resolvedType
      dsimp only
      rw [Outcome.bind_result hvalue]
      refine ⟨_, rfl, ⟨_, rfl, writes_promise hwrites⟩, ?_⟩
      exact forall₂_filter (fun p q h => by rw [hnamed p q h]) hinputs

/-! ## Overloads -/

theorem renderOne_writes (name : Json) {r : String} {t : Tree} (hr : Writes r t)
    {ps : List Input} {qs : List Argument} (h : List.Forall₂ Corresponds ps qs) :
    ∃ line, (Signature.renderOne Signature.Style.inline name (.text r) ps).result = .ok line ∧
      Writes line (.arrow (Argument.fields qs) t) := by
  obtain ⟨ss, hss, hfields⟩ := renderAll_writes h
  refine ⟨_, ?_, writes_arrow hfields hr⟩
  have hhead : Signature.head Signature.Style.inline name = .ok "" := rfl
  unfold Signature.renderOne
  rw [Outcome.bind_result hss, hhead, Outcome.bind_result (Outcome.lift_result _)]
  simp [Signature.Style.inline]

theorem renderEach_writes (name : Json) {r : String} {t : Tree} (hr : Writes r t)
    {pss : List (List Input)} {qss : List (List Argument)}
    (h : List.Forall₂ (List.Forall₂ Corresponds) pss qss) :
    ∃ ls, (Signature.renderEach Signature.Style.inline name (.text r) pss).result = .ok ls ∧
      List.Forall₂ Writes ls (qss.map fun qs => .arrow (Argument.fields qs) t) := by
  induction h with
  | nil => exact ⟨[], rfl, .nil⟩
  | cons hpq _ ih =>
    obtain ⟨line, hline, hwrites⟩ := renderOne_writes name hr hpq
    obtain ⟨lines, hlines, hrest⟩ := ih
    refine ⟨line :: lines, ?_, .cons hwrites hrest⟩
    rw [Signature.renderEach, Outcome.bind_result hline, Outcome.bind_result hlines]
    rfl

/-- **Several function types as one type** write the union of what they write. -/
theorem union_writes {ls : List String} {ts : List Tree} (h : List.Forall₂ Writes ls ts)
    (hne : ls ≠ []) (hflat : ∀ t ∈ ts, t.IsFlat) :
    Writes (Signature.union ls) (.union ts) := by
  unfold Signature.union
  split
  case h_1 one =>
    cases h with
    | @cons _ t _ _ hwrites hrest =>
      cases hrest
      have ht : Tree.union [t] = t := hflat t List.mem_cons_self
      rwa [ht]
  case h_2 =>
    -- among several, each one stands in parentheses
    refine writes_union ?_ (by simpa using hne) hflat
    rw [List.forall₂_map_left_iff]
    refine h.imp fun s t hwrites => ?_
    obtain ⟨xs, hxs, hder⟩ := hwrites.parentheses
    exact ⟨.operand hxs.reads hder, xs, hxs.reads, .operand hder⟩

theorem isFlat_function (call : Tree × List Argument) : (Argument.function call).IsFlat :=
  Tree.isFlat_union (mt List.map_eq_nil_iff.mp (Overload.lists_ne_nil _ _))

/-- **The text of a function's type writes the arrows of its overloads.** -/
theorem type_yields (current : String) {s : Signature} {qs : List Argument} {output : Tree}
    (hinputs : List.Forall₂ Corresponds s.inputs qs) (houtput : Yields s.output output) :
    Yields (Expression.text <$> s.type current)
      (Argument.function (Argument.call s.async qs output)) := by
  obtain ⟨shape, hshape, ⟨r, hr, hwrites⟩, hshaped⟩ :=
    callShape_corresponds current hinputs houtput
  have hoverloads := forall₂_lists (fun _ _ h => h.optional) hshaped
  obtain ⟨ls, hls, hlines⟩ := renderEach_writes s.name hwrites hoverloads
  -- there is one overload at least, so the union is not empty
  have hne : ls ≠ [] := by
    rintro rfl
    exact Overload.lists_ne_nil _ _ (List.map_eq_nil_iff.mp (List.forall₂_nil_left_iff.mp hlines))
  have htype : (s.type current).result = .ok (Signature.union ls) :=
    Outcome.bind_result (Signature.lines_inline hshape (hr ▸ hls)) _
  refine ⟨Signature.union ls, Outcome.bind_result htype _, union_writes hlines hne fun t ht => ?_⟩
  obtain ⟨_, -, rfl⟩ := List.mem_map.mp ht
  exact Tree.isFlat_of_options rfl

end Typings.TypeSyntax
