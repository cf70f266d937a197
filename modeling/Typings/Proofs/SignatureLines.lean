import Mathlib.Data.List.Forall2
import Typings.Proofs.Composition.Declarations
import Typings.Proofs.WrittenTypes

/-!
# The lines of a signature

A function is declared by its comment, by one line for each overload, and by the export of a
function that had to be renamed. The overloads stand between the same head and the same result;
what tells them apart is their parameters, which are the parameter lists of what callers see, in
their order. The lines are there exactly if every piece of them can be written.

`MadeOf` says this of a list of lines, and `lines_eq_ok` that it is exactly what the writing of a
signature gives. From then on nobody opens the function that writes: what is said of overloads,
promises or names is said of the parts of `MadeOf`.
-/

namespace Typings

namespace Input

/-! ## Parameters -/

/-- Which parameters of a list carry the mark of one that may be left out. -/
def marks : List Input → List Bool
  | [] => []
  | p :: ps => (p.optional && p.isCallback && ps.isEmpty) :: marks ps

/-- A parameter is written as its name, the mark if it carries one, and its type. -/
def WrittenAs (p : Input) (marked : Bool) (text : String) : Prop :=
  ∃ name type, p.declaredName = .ok name ∧ p.type.result = .ok type ∧
    text = name ++ (if marked then "?" else "") ++ ": " ++ type.toText

/-- These are the texts of the parameters of a list, in order. -/
def Written (ps : List Input) (texts : List String) : Prop :=
  List.Forall₂ (fun p text => p.1.WrittenAs p.2 text) (ps.zip (marks ps)) texts

theorem render_eq_ok {p : Input} {trailing : Bool} {text : String} :
    (p.render trailing).result = .ok text ↔
      p.WrittenAs (p.optional && p.isCallback && trailing) text := by
  simp only [render, Outcome.bind_result_eq_ok, Outcome.lift_result, Outcome.pure_result_eq_ok]
  constructor
  · rintro ⟨name, hname, type, htype, rfl⟩
    exact ⟨name, type, hname, htype, rfl⟩
  · rintro ⟨name, type, hname, htype, rfl⟩
    exact ⟨name, hname, type, htype, rfl⟩

/-- **The parameters of a list are written one by one**, if each of them can be. -/
theorem renderAll_eq_ok {ps : List Input} {texts : List String} :
    (renderAll ps).result = .ok texts ↔ Written ps texts := by
  unfold Written
  induction ps generalizing texts with
  | nil =>
    rw [renderAll, Outcome.pure_result_eq_ok, marks, List.zip_nil_left, List.forall₂_nil_left_iff]
    exact eq_comm
  | cons p ps ih =>
    simp only [renderAll, Outcome.bind_result_eq_ok, Outcome.pure_result_eq_ok, render_eq_ok, ih]
    -- whether a parameter carries the mark depends on it and on whether it is the last one
    rw [marks, List.zip_cons_cons, List.forall₂_cons_left_iff]
    constructor
    · rintro ⟨text, htext, rest, hrest, rfl⟩
      exact ⟨text, rest, htext, hrest, rfl⟩
    · rintro ⟨text, rest, htext, hrest, rfl⟩
      exact ⟨text, htext, rest, hrest, rfl⟩

end Input

namespace Signature

/-! ## Overloads -/

/-- The line is that of an overload with these parameters. -/
def WritesOverload (style : Style) (head : String) (returns : Expression) (ps : List Input)
    (line : String) : Prop :=
  ∃ texts, Input.Written ps texts ∧ line = overloadLine style head returns texts

theorem renderLists_eq_ok {pss : List (List Input)} {lists : List (List String)} :
    (Input.renderLists pss).result = .ok lists ↔ List.Forall₂ Input.Written pss lists := by
  induction pss generalizing lists with
  | nil =>
    rw [Input.renderLists, Outcome.pure_result_eq_ok, List.forall₂_nil_left_iff]
    exact eq_comm
  | cons ps pss ih =>
    simp only [Input.renderLists, Outcome.bind_result_eq_ok, Outcome.pure_result_eq_ok,
      Input.renderAll_eq_ok, ih]
    rw [List.forall₂_cons_left_iff]
    constructor
    · rintro ⟨texts, htexts, rest, hrest, rfl⟩
      exact ⟨texts, rest, htexts, hrest, rfl⟩
    · rintro ⟨texts, rest, htexts, hrest, rfl⟩
      exact ⟨texts, htexts, rest, hrest, rfl⟩

/-- **There is a line for every parameter list**, in their order. -/
theorem renderEach_eq_ok {style : Style} {name : Json} {head : String}
    (hhead : Signature.head style name = .ok head) {returns : Expression}
    {pss : List (List Input)} {ls : List String} :
    (renderEach style name returns pss).result = .ok ls ↔
      List.Forall₂ (WritesOverload style head returns) pss ls := by
  have hmap : (renderEach style name returns pss).result = .ok ls ↔
      ∃ lists, List.Forall₂ Input.Written pss lists ∧
        lists.map (overloadLine style head returns) = ls := by
    simp only [renderEach_eq hhead, map_eq_pure_bind, Outcome.bind_result_eq_ok,
      Outcome.pure_result_eq_ok, renderLists_eq_ok]
  rw [hmap]
  constructor
  · rintro ⟨lists, hlists, rfl⟩
    rw [List.forall₂_map_right_iff]
    exact hlists.imp fun ps texts htexts => ⟨texts, htexts, rfl⟩
  · intro hlines
    -- the texts of the parameters are taken out of the lines one by one
    clear hmap
    induction hlines with
    | nil => exact ⟨[], .nil, rfl⟩
    | @cons ps line pss ls hline _ ih =>
      obtain ⟨texts, htexts, rfl⟩ := hline
      obtain ⟨lists, hlists, rfl⟩ := ih
      exact ⟨texts :: lists, .cons htexts hlists, rfl⟩

/-- Where there is an overload at all, what precedes its parameters has been written. -/
theorem exists_head {style : Style} {name : Json} {returns : Expression}
    {pss : List (List Input)} {ls : List String} (hne : pss ≠ [])
    (h : (renderEach style name returns pss).result = .ok ls) :
    ∃ head, Signature.head style name = .ok head := by
  obtain ⟨ps, rest, rfl⟩ := List.exists_cons_of_ne_nil hne
  rw [renderEach] at h
  obtain ⟨line, hline, -⟩ := Outcome.bind_result_eq_ok.mp h
  unfold renderOne at hline
  obtain ⟨texts, -, hline⟩ := Outcome.bind_result_eq_ok.mp hline
  obtain ⟨head, hhead, -⟩ := Outcome.bind_result_eq_ok.mp hline
  exact ⟨head, hhead⟩

/-! ## All lines -/

/-- The name under which a function is declared. -/
def declaredName (renamed : Bool) (name : Json) : Json :=
  if renamed then .str (Reserved.mark ++ name.display) else name

/-- The export of a function that had to be renamed. -/
def exports (style : Style) (renamed : Bool) (name : Json) : List String :=
  if renamed then [exportLine style (declaredName renamed name).display name.display] else []

/-- The pieces of which the lines of a signature are made. -/
structure MadeOf (style : Style) (s : Signature) (shape : CallShape) (ls : List String)
    (doc overloads : List String) : Prop where
  comment : s.comment style shape = .ok doc
  overloads : ∃ renamed head, isRenamed style s.name = .ok renamed ∧
    Signature.head style (declaredName renamed s.name) = .ok head ∧
    List.Forall₂ (WritesOverload style head shape.returns) shape.overloads overloads ∧
    ls = doc ++ overloads ++ exports style renamed s.name

/-- **The lines of a signature are its comment, its overloads and its export**, for what callers
see of the function. -/
theorem lines_eq_ok {style : Style} {current : String} {s : Signature} {ls : List String} :
    (s.lines style current).result = .ok ls ↔
      ∃ shape, (s.callShape current).result = .ok shape ∧
        ∃ doc overloads, s.MadeOf style shape ls doc overloads := by
  simp only [lines, Outcome.bind_result_eq_ok, Outcome.lift_result, Outcome.pure_result_eq_ok]
  constructor
  · rintro ⟨shape, hshape, renamed, hrenamed, doc, hdoc, overloads, hoverloads, rfl⟩
    -- every overload has the same head, and there is one overload at least
    obtain ⟨head, hhead⟩ := exists_head (Overload.lists_ne_nil _ _) hoverloads
    have heach := (renderEach_eq_ok hhead).mp hoverloads
    exact ⟨shape, hshape, doc, overloads, hdoc, renamed, head, hrenamed, hhead, heach, rfl⟩
  · rintro ⟨shape, hshape, doc, overloads, hdoc, renamed, head, hrenamed, hhead, heach, rfl⟩
    have hoverloads := (renderEach_eq_ok hhead).mpr heach
    exact ⟨shape, hshape, renamed, hrenamed, doc, hdoc, overloads, hoverloads, rfl⟩

/-- What a function needs for its lines to be there: a name that is a text, a description that is
one, and parameters and a result that can be written. -/
structure IsWritable (s : Signature) : Prop where
  name : s.name.isText = true
  description : DocComment.IsDescription s.description
  composed : s.IsComposed fun _ => True

theorem IsWritable.exists_comment {s : Signature} (h : s.IsWritable) (style : Style)
    (shape : CallShape) : ∃ doc, s.comment style shape = .ok doc := by
  unfold comment
  split
  · obtain ⟨ls, hls⟩ := DocComment.bodyLines_ok (isDescription_paragraphs h.description shape)
    refine ⟨DocComment.block style.indent ls, ?_⟩
    rw [DocComment.render, hls]
    rfl
  · exact ⟨[], rfl⟩

theorem IsWritable.exists_head {s : Signature} (h : s.IsWritable) (style : Style) :
    ∃ renamed head, isRenamed style s.name = .ok renamed ∧
      Signature.head style (declaredName renamed s.name) = .ok head := by
  obtain ⟨name, hname⟩ := Json.exists_str_of_isText h.name
  have hrenamed : ∃ renamed, isRenamed style s.name = .ok renamed := by
    rw [hname]
    unfold isRenamed
    split <;> exact ⟨_, rfl⟩
  obtain ⟨renamed, hrenamed⟩ := hrenamed
  have hdeclared : ∃ declared, declaredName renamed s.name = .str declared := by
    rw [hname]
    cases renamed <;> exact ⟨_, rfl⟩
  obtain ⟨declared, hdeclared⟩ := hdeclared
  have hname : Composed (fun _ => True) declared := .name trivial
  obtain ⟨head, hhead, -⟩ := head_composed style hname
  exact ⟨renamed, head, hrenamed, hdeclared ▸ hhead⟩

/-- **A function that can be written has lines**, in every style. -/
theorem IsWritable.exists_lines {s : Signature} (h : s.IsWritable) (style : Style)
    (current : String) : ∃ ls, (s.lines style current).result = .ok ls := by
  obtain ⟨shape, hshape, hcomposed⟩ := callShape_yields h.composed current
  obtain ⟨doc, hdoc⟩ := h.exists_comment style shape
  obtain ⟨renamed, head, hrenamed, hhead⟩ := h.exists_head style
  obtain ⟨lists, hlists, -⟩ := Input.renderLists_yields (overloads_composed hcomposed)
  have hoverloads : (renderEach style (declaredName renamed s.name) shape.returns
      shape.overloads).result = .ok (lists.map (overloadLine style head shape.returns)) := by
    rw [renderEach_eq hhead, map_eq_pure_bind, Outcome.bind_result hlists]
    rfl
  exact ⟨_, lines_eq_ok.mpr ⟨shape, hshape, doc, _, hdoc, renamed, head, hrenamed, hhead,
    (renderEach_eq_ok hhead).mp hoverloads, rfl⟩⟩

end Signature

end Typings
