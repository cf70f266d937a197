import Typings.Proofs.Documentation.StrippedLines

/-!
# A description cannot end its comment

A comment ends at the first star with a slash behind it. Descriptions may hold that mark, so
it is broken up before they are written, and what is done to them afterwards does not bring
it back: cutting a text into lines, trimming them and leaving blanks out at their ends only
takes characters away at the ends, and what is put in front of a line does not end with a
star.

So between its first and its last sign a comment block is `Endless`, whatever it says.
-/

namespace Typings

namespace Text

/-- No comment ends anywhere in the text. -/
def Endless (s : List Char) : Prop := ¬ ['*', '/'] <:+: s

theorem endless_nil : Endless [] := by
  intro h
  have hlen := h.length_le
  simp at hlen

/-- What is cut out of a text in which no comment ends is such a text. -/
theorem Endless.mono {s t : List Char} (ht : Endless t) (h : s <:+: t) : Endless s :=
  fun hs => ht (hs.trans h)

/-- Without a star no comment can end. -/
theorem endless_of_notMem {s : List Char} (h : '*' ∉ s) : Endless s := by
  intro hs
  have hmem : '*' ∈ s := hs.subset (by simp)
  exact h hmem

/-- Two texts that stand behind one another end no comment between them, unless the first one
ends with a star and the second one starts with a slash. -/
theorem Endless.append {s t : List Char} (hs : Endless s) (ht : Endless t)
    (hmark : s.getLast? ≠ some '*' ∨ t.head? ≠ some '/') : Endless (s ++ t) := by
  rintro ⟨a, b, hab⟩
  rw [List.append_assoc] at hab
  rcases List.append_eq_append_iff.mp hab with ⟨u, hu, hv⟩ | ⟨u, -, hv⟩
  · -- the mark starts inside the first text, or where it ends
    rcases u with _ | ⟨c, _ | ⟨d, u⟩⟩
    · exact ht ⟨[], b, hv⟩
    · obtain ⟨hc, hrest⟩ := List.cons.inj hv
      have hlast : s.getLast? = some '*' := by rw [hu, List.getLast?_concat, hc]
      have hhead : t.head? = some '/' := congrArg List.head? hrest.symm
      rcases hmark with hmark | hmark
      · exact hmark hlast
      · exact hmark hhead
    · obtain ⟨hc, hrest⟩ := List.cons.inj hv
      obtain ⟨hd, -⟩ := List.cons.inj hrest
      exact hs ⟨a, u, by rw [hu, List.append_assoc, hc, hd]; rfl⟩
  · exact ht ⟨u, b, by rw [hv, List.append_assoc]⟩

/-! ## Cutting and trimming -/

theorem infix_intercalate {sep p : List Char} {ps : List (List Char)} (h : p ∈ ps) :
    p <:+: sep.intercalate ps := by
  induction ps with
  | nil => exact absurd h (by simp)
  | cons q ps ih =>
    -- the first piece starts the text; any other is behind a separator
    rcases List.mem_cons.mp h with rfl | h
    · cases ps with
      | nil => exact List.intercalate_singleton.symm ▸ List.infix_rfl
      | cons r ps =>
        rw [List.intercalate_cons_cons, List.append_assoc]
        exact (List.prefix_append _ _).isInfix
    · obtain ⟨r, ps, rfl⟩ := List.exists_cons_of_ne_nil (List.ne_nil_of_mem h)
      rw [List.intercalate_cons_cons]
      exact (ih h).trans (List.suffix_append _ _).isInfix

/-- A line of a text is cut out of it. -/
theorem infix_of_mem_lines {s l : List Char} (h : l ∈ lines s) : l <:+: s := by
  have hl : l <:+: unlines (lines s) := infix_intercalate h
  rwa [unlines_lines] at hl

theorem infix_trim (s : List Char) : trim s <:+: s := by
  have hleft : trimLeft s <:+ s := List.dropWhile_suffix _
  exact (DocComment.isPrefix_trimRight (trimLeft s)).isInfix.trans hleft.isInfix

end Text

namespace DocComment

open Text (Endless endless_nil endless_of_notMem infix_trim infix_of_mem_lines)

/-! ## Descriptions -/

theorem head?_sealed (s : List Char) : (sealed s).head? = s.head? := by
  fun_cases sealed s <;> rfl

/-- The slash that could end a comment is parted from its star. -/
theorem endless_sealed (s : List Char) : Endless (sealed s) := by
  fun_induction sealed s with
  | case1 s ih =>
    have hmark : Endless ['*', '\\', '/'] := by
      rw [Endless]
      decide
    exact hmark.append ih (Or.inl (by decide))
  | case2 c s hnot ih =>
    have hone : Endless [c] := by
      intro h
      have hlen := h.length_le
      simp at hlen
    refine hone.append ih ?_
    -- a star is followed by a slash in the first case only
    by_cases hc : c = '*'
    · refine Or.inr fun hhead => ?_
      rw [head?_sealed] at hhead
      obtain ⟨rest, hrest⟩ := List.head?_eq_some_iff.mp hhead
      exact hnot rest hc hrest
    · exact Or.inl (by simpa using hc)
  | case3 => exact endless_nil

/-- No line of a description ends a comment. -/
theorem endless_paragraphLines {s l : List Char} (h : l ∈ paragraphLines s) : Endless l := by
  obtain ⟨line, hline, rfl⟩ := List.mem_map.mp h
  have hcut : Text.trim line <:+: sealed s := (infix_trim line).trans (infix_of_mem_lines hline)
  exact (endless_sealed s).mono hcut

/-- The lines of paragraphs are those of the texts among them. -/
theorem exists_of_mem_bodyLines {ps : List Json} {ls : List (List Char)}
    (h : bodyLines ps = .ok ls) {l : List Char} (hl : l ∈ ls) :
    ∃ s, .str s ∈ ps ∧ l ∈ paragraphLines s.toList := by
  induction ps generalizing ls with
  | nil =>
    obtain rfl := Except.ok.inj h
    exact absurd hl (by simp)
  | cons p ps ih =>
    -- a paragraph that is set is a text, and one that is not has no lines
    unfold bodyLines at h
    split at h
    · split at h
      · next s _ =>
        obtain ⟨rest, hrest, h⟩ := Fault.bind_eq_ok.mp h
        obtain rfl := Except.ok.inj h
        rcases List.mem_append.mp hl with hl | hl
        · exact ⟨s, List.mem_cons_self, hl⟩
        · obtain ⟨t, ht, hl⟩ := ih hrest hl
          exact ⟨t, List.mem_cons_of_mem _ ht, hl⟩
      · cases h
    · obtain ⟨t, ht, hl⟩ := ih h hl
      exact ⟨t, List.mem_cons_of_mem _ ht, hl⟩

theorem endless_bodyLines {ps : List Json} {ls : List (List Char)} (h : bodyLines ps = .ok ls) :
    ∀ l ∈ ls, Endless l := by
  intro l hl
  obtain ⟨s, -, hl⟩ := exists_of_mem_bodyLines h hl
  exact endless_paragraphLines hl

/-! ## Blocks -/

/-- A line of a block, with what stands in front of its text. -/
def blockLine (indent : String) (l : List Char) : List Char :=
  Text.trimRight (indent.toList ++ " * ".toList ++ l)

theorem endless_blockLine {indent : String} (hindent : '*' ∉ indent.toList) {l : List Char}
    (h : Endless l) : Endless (blockLine indent l) := by
  have hstar : Endless " * ".toList := by
    rw [Endless]
    decide
  have hfront : Endless (indent.toList ++ " * ".toList) :=
    (endless_of_notMem hindent).append hstar (Or.inr (by decide))
  have hlast : (indent.toList ++ " * ".toList).getLast? ≠ some '*' := by
    rw [List.getLast?_append]
    simp
  exact (hfront.append h (Or.inl hlast)).mono (isPrefix_trimRight _).isInfix

/-- What stands in a block between its first slash and star and its last ones. -/
def blockBody (indent : String) (ls : List (List Char)) : List Char :=
  ['*', '\n'] ++ (ls.flatMap fun l => blockLine indent l ++ ['\n']) ++ (indent.toList ++ [' '])

/-- **No text ends the comment block that it stands in.** -/
theorem endless_blockBody {indent : String} (hindent : '*' ∉ indent.toList)
    {ls : List (List Char)} (h : ∀ l ∈ ls, Endless l) : Endless (blockBody indent ls) := by
  have hnewline : Endless ['\n'] := endless_of_notMem (by decide)
  have hend : Endless (indent.toList ++ [' ']) := endless_of_notMem (by simpa using hindent)
  have hstart : Endless ['*', '\n'] := by
    rw [Endless]
    decide
  -- every line ends with a newline, so no mark can lie across two of them
  have hlines : Endless (ls.flatMap (fun l => blockLine indent l ++ ['\n']) ++
      (indent.toList ++ [' '])) := by
    induction ls with
    | nil => exact hend
    | cons l ls ih =>
      obtain ⟨hl, hls⟩ := List.forall_mem_cons.mp h
      have hline : Endless (blockLine indent l ++ ['\n']) :=
        (endless_blockLine hindent hl).append hnewline (Or.inr (by decide))
      rw [List.flatMap_cons, List.append_assoc]
      exact hline.append (ih hls) (Or.inl (by simp))
  unfold blockBody
  rw [List.append_assoc]
  exact hstart.append hlines (Or.inl (by decide))

end DocComment

end Typings
