import Mathlib.Data.List.Basic
import Typings.Proofs.Composition.Text

/-!
# A description stays inside its block

The lines that are written for some paragraphs are nothing or one comment, whatever the paragraphs
say: it starts with its opening, holds no end but the one that it ends with, and every newline in
it is one between two lines.

Inside a paragraph the end mark is broken up before its lines are cut, so no line has one. Nor does
one come about where lines meet: a line starts with its margin, and a mark has no newline in it.
-/

namespace Typings

namespace Text

/-- **A text in which no comment ends has one end of a comment if that is put behind it**, and this
is the one. -/
theorem Endless.eq_nil_of_mark {s a b : List Char} (h : Endless s)
    (hab : s ++ ['*', '/'] = a ++ ['*', '/'] ++ b) : b = [] := by
  rcases List.eq_nil_or_concat' b with rfl | ⟨b, c, rfl⟩
  · rfl
  · exfalso
    -- without the last sign of all there is an end already, and a star does not make one
    have hstar : Endless (s ++ ['*']) :=
      h.append (by rw [Endless]; decide) (Or.inr (by decide))
    have hcut : s ++ ['*'] = a ++ ['*', '/'] ++ b := by
      have hlast : (s ++ ['*']) ++ ['/'] = (a ++ ['*', '/'] ++ b) ++ [c] := by
        rw [List.append_assoc, List.append_assoc, List.singleton_append]
        exact hab
      exact (List.append_inj' hlast rfl).1
    exact hstar ⟨a, b, hcut.symm⟩

end Text

namespace DocComment

open Text (Endless endless_of_notMem isBlank)

/-- Lines that make one comment behind their indent. -/
structure IsComment (indent : String) (ls : List String) : Prop where
  opening : (indent ++ "/**").toList <+: ("\n".intercalate ls).toList
  closing : ['*', '/'] <:+ ("\n".intercalate ls).toList
  /-- Nothing stands behind an end of a comment, so there is only one. -/
  once : ∀ before after, ("\n".intercalate ls).toList = before ++ ['*', '/'] ++ after → after = []
  inline : ∀ l ∈ ls, '\n' ∉ l.toList

theorem IsComment.ne_empty {indent : String} {ls : List String} (h : IsComment indent ls) :
    "\n".intercalate ls ≠ "" := by
  intro hempty
  have hclosing := h.closing
  rw [hempty] at hclosing
  exact absurd hclosing (by decide)

/-! ## Lines of paragraphs -/

theorem newline_notMem_bodyLines {ps : List Json} {ls : List (List Char)}
    (h : bodyLines ps = .ok ls) {l : List Char} (hl : l ∈ ls) : '\n' ∉ l := by
  obtain ⟨s, -, hl⟩ := exists_of_mem_bodyLines h hl
  obtain ⟨line, hline, rfl⟩ := List.mem_map.mp hl
  exact fun hmem => Text.notMem_of_mem_cut hline ((Text.infix_trim line).subset hmem)

/-- Only paragraphs that are not set have no lines: a text has one, even if it is blank. -/
theorem bodyLines_eq_nil_iff {ps : List Json} {ls : List (List Char)}
    (h : bodyLines ps = .ok ls) : ls = [] ↔ ∀ p ∈ ps, p.isSet = false := by
  induction ps generalizing ls with
  | nil =>
    obtain rfl := Except.ok.inj h
    simp
  | cons p ps ih =>
    unfold bodyLines at h
    split at h
    case isTrue hset =>
      split at h
      · next s =>
        obtain ⟨rest, -, h⟩ := Fault.bind_eq_ok.mp h
        obtain rfl := Except.ok.inj h
        -- even an empty text is one line
        have hlines : paragraphLines s.toList ≠ [] := by
          simpa [paragraphLines, Text.lines] using Text.cut_ne_nil '\n' (sealed s.toList)
        simp [hlines, hset]
      · cases h
    case isFalse hset =>
      rw [ih h, List.forall_mem_cons]
      exact ⟨fun hps => ⟨by simpa using hset, hps⟩, And.right⟩

/-! ## Blocks -/

variable {indent : String} {ls : List (List Char)}

/-- A block without the newline that would stand behind its last line. -/
theorem toList_intercalate_block (h : ls ≠ []) :
    ("\n".intercalate (block indent ls)).toList =
      indent.toList ++ ['/', '*'] ++ blockBody indent ls ++ ['*', '/'] := by
  have hblock : block indent ls ≠ [] := by simp [block, h]
  have htext := @linesText_block indent ls h
  rw [← intercalate_newline hblock] at htext
  have hlist := congrArg String.toList htext
  simp only [String.toList_append] at hlist
  rw [List.append_cancel_right hlist, String.toList_ofList]
  simp

theorem newline_notMem_block (hindent : '\n' ∉ indent.toList) (hls : ∀ l ∈ ls, '\n' ∉ l) :
    ∀ l ∈ block indent ls, '\n' ∉ l.toList := by
  intro line hline
  unfold block at hline
  split at hline
  · exact absurd hline (by simp)
  · rcases List.mem_append.mp hline with hline | hline
    · rcases List.mem_append.mp hline with hline | hline
      · obtain rfl := List.mem_singleton.mp hline
        simpa using hindent
      · -- nothing is put behind the indent and the line, and blanks are taken away
        obtain ⟨l, hl, rfl⟩ := List.mem_map.mp hline
        rw [String.toList_ofList]
        intro hmem
        have hmem := (isPrefix_trimRight _).subset hmem
        simp [hindent, hls l hl] at hmem
    · obtain rfl := List.mem_singleton.mp hline
      simpa using hindent

theorem isComment_block (hindent : ∀ c ∈ indent.toList, isBlank c = true ∧ c ≠ '\n')
    (hne : ls ≠ []) (hendless : ∀ l ∈ ls, Endless l) (hnewline : ∀ l ∈ ls, '\n' ∉ l) :
    IsComment indent (block indent ls) := by
  have htext := @toList_intercalate_block indent ls hne
  refine ⟨?opening, ?closing, ?once, ?inline⟩
  case opening =>
    rw [htext, blockBody]
    simp
  case closing =>
    rw [htext]
    exact List.suffix_append _ _
  case once =>
    intro before after hab
    rw [htext] at hab
    have hstar : '*' ∉ indent.toList := fun hmem => absurd (hindent '*' hmem).1 (by decide)
    have hfront : Endless (indent.toList ++ ['/', '*']) :=
      (endless_of_notMem hstar).append (by rw [Endless]; decide)
        (Or.inl fun hlast => hstar (List.mem_of_getLast? hlast))
    -- the star that the opening goes on with is not the slash of an end
    have hhead : (blockBody indent ls).head? ≠ some '/' := by simp [blockBody]
    exact (hfront.append (endless_blockBody hstar hendless) (Or.inr hhead)).eq_nil_of_mark hab
  case inline =>
    exact newline_notMem_block (fun hmem => (hindent '\n' hmem).2 rfl) hnewline

/-! ## Paragraphs and a deprecation -/

/-- What is said about a deprecation is set. -/
theorem forall_deprecation_isSet_iff {deprecated : Json} :
    (∀ p ∈ deprecation deprecated, p.isSet = false) ↔ deprecated = .bool false := by
  constructor
  · intro h
    unfold deprecation at h
    split at h
    case h_1 => rfl
    case h_2 s =>
      simp [Json.isSet] at h
    case h_3 => exact absurd (h _ List.mem_cons_self) (by decide)
  · rintro rfl p hp
    exact absurd hp (by simp [deprecation])

/-- Texts, missing ones, and what is said about a deprecation are descriptions. -/
theorem isDescription_append_deprecation {paragraphs : List Json}
    (hp : ∀ p ∈ paragraphs, p = .null ∨ ∃ s, p = .str s) (deprecated : Json) :
    ∀ p ∈ paragraphs ++ deprecation deprecated, IsDescription p := by
  intro p hmem
  rcases List.mem_append.mp hmem with hmem | hmem
  · rcases hp p hmem with rfl | ⟨s, rfl⟩
    · exact fun hset => absurd hset (by decide)
    · exact isDescription_str s
  · exact isDescription_deprecation hmem

/-- **No description and no note about a deprecation leaves its comment.** Nothing is written if
there is nothing to say, and else one comment. -/
theorem render_isComment {paragraphs : List Json}
    (hp : ∀ p ∈ paragraphs, p = .null ∨ ∃ s, p = .str s) (deprecated : Json) {indent : String}
    (hindent : ∀ c ∈ indent.toList, isBlank c = true ∧ c ≠ '\n') :
    ∃ ls, render (paragraphs ++ deprecation deprecated) indent = .ok ls ∧
      ("\n".intercalate ls = "" ↔
        (∀ p ∈ paragraphs, p = .null ∨ p = .str "") ∧ deprecated = .bool false) ∧
      ("\n".intercalate ls ≠ "" → IsComment indent ls) := by
  obtain ⟨body, hbody⟩ := bodyLines_ok (isDescription_append_deprecation hp deprecated)
  have hempty : (∀ p ∈ paragraphs, p.isSet = false) ↔
      ∀ p ∈ paragraphs, p = .null ∨ p = .str "" := by
    refine forall₂_congr fun p hmem => ?_
    rcases hp p hmem with rfl | ⟨s, rfl⟩ <;> simp [Json.isSet]
  -- there are no lines exactly if neither the paragraphs nor the deprecation say anything
  have hnil := (bodyLines_eq_nil_iff hbody).trans List.forall_mem_append
  rw [hempty, forall_deprecation_isSet_iff] at hnil
  refine ⟨block indent body, by rw [render, hbody]; rfl, ?_⟩
  by_cases hne : body = []
  · have hblock : block indent body = [] := by rw [hne]; rfl
    rw [hblock, String.intercalate_nil]
    exact ⟨iff_of_true rfl (hnil.mp hne), fun h => absurd rfl h⟩
  · have hcomment : IsComment indent (block indent body) :=
      isComment_block hindent hne (endless_bodyLines hbody) fun _ => newline_notMem_bodyLines hbody
    exact ⟨iff_of_false hcomment.ne_empty fun h => hne (hnil.mpr h), fun _ => hcomment⟩

/-- Ends of comments are broken up, and a star and a slash on two lines stay on two lines. -/
theorem render_isComment_marks :
    render ([.null, .str "a */ *\n/"] ++ deprecation (.str "**/")) "  " =
      .ok ["  /**", "   * a *\\/ *", "   * /", "   * @deprecated **\\/", "   */"] ∧
    IsComment "  " ["  /**", "   * a *\\/ *", "   * /", "   * @deprecated **\\/", "   */"] := by
  have hp : ∀ p ∈ [Json.null, .str "a */ *\n/"], p = .null ∨ ∃ s, p = .str s := by simp
  have hindent : ∀ c ∈ "  ".toList, isBlank c = true ∧ c ≠ '\n' := by simp [isBlank]
  have hrender : render ([.null, .str "a */ *\n/"] ++ deprecation (.str "**/")) "  " =
      .ok ["  /**", "   * a *\\/ *", "   * /", "   * @deprecated **\\/", "   */"] := by rfl
  obtain ⟨ls, hls, -, hcomment⟩ := render_isComment hp (.str "**/") hindent
  rw [hrender] at hls
  obtain rfl := Except.ok.inj hls
  exact ⟨hrender, hcomment (by decide)⟩

end DocComment

end Typings
