import Mathlib.Data.List.DropRight
import Mathlib.Data.List.TakeWhile
import Typings.Proofs.Composition.Comment

/-!
# Tags of parameters

A line of a comment that says `@param` describes a parameter, and what stands behind it starts with
the name of the parameter. A paragraph without newlines becomes one line, so the tags of a comment
are those of its paragraphs, in their order.

Two things are done to a paragraph on its way into a comment: blanks at its ends are cut off, and
end marks in it are broken up. Neither makes a tag where there was none, nor takes one away, and
the first word behind the mark stays what it was.
-/

namespace Typings

namespace Text

/-- Trimming stops at a character that is not blank. -/
theorem trimRight_append_cons {c : Char} (hc : isBlank c = false) (a s : List Char) :
    trimRight (a ++ c :: s) = a ++ c :: trimRight s := by
  unfold trimRight
  rw [List.reverse_append, List.reverse_cons, List.append_assoc, List.dropWhile_append]
  split
  case isTrue hblank =>
    rw [List.isEmpty_iff.mp hblank]
    simp [hc]
  case isFalse =>
    simp

theorem trimRight_trimRight (s : List Char) : trimRight (trimRight s) = trimRight s := by
  unfold trimRight
  rw [List.reverse_reverse, List.dropWhile_idempotent]

/-- The word that a text starts with. -/
def firstWord (s : List Char) : List Char := s.takeWhile fun c => !isBlank c

theorem firstWord_append_cons {c : Char} (hc : isBlank c = true) (s t : List Char) :
    firstWord (s ++ c :: t) = firstWord s := by
  have hnil : (c :: t).takeWhile (fun c => !isBlank c) = [] :=
    List.takeWhile_cons_of_neg (by simp [hc])
  unfold firstWord
  rw [List.takeWhile_append, hnil, List.append_nil]
  split
  case isTrue hlength => exact ((List.takeWhile_prefix _).eq_of_length hlength).symm
  case isFalse => rfl

/-- Trimming leaves the first word as it is. -/
theorem firstWord_trimRight (s : List Char) :
    firstWord ((trimRight (' ' :: s)).drop 1) = firstWord s := by
  -- by induction from behind, where blanks are cut off
  induction s using List.reverseRecOn with
  | nil => rfl
  | append_singleton s c ih =>
    cases hc : isBlank c with
    | true =>
      have htrim : trimRight (' ' :: (s ++ [c])) = trimRight (' ' :: s) := by
        unfold trimRight
        rw [← List.cons_append, List.reverse_concat, List.dropWhile_cons_of_pos hc]
      rw [htrim, ih, firstWord_append_cons hc]
    | false =>
      have htrim : trimRight (' ' :: (s ++ [c])) = ' ' :: (s ++ [c]) :=
        trimRight_append_cons hc (' ' :: s) []
      rw [htrim, List.drop_one, List.tail_cons]

end Text

namespace DocComment

open Text (Endless trim trimRight firstWord)

/-! ## What a comment does to a text -/

variable {s t : List Char}

theorem sealed_append_cons {c : Char} (hc : c ≠ '/') (s t : List Char) :
    sealed (s ++ c :: t) = sealed s ++ sealed (c :: t) := by
  fun_induction sealed s with
  | case1 s ih =>
    rw [List.cons_append, List.cons_append, sealed, ih]
    rfl
  | case2 d s hnot ih =>
    rw [List.cons_append, sealed, ih]
    · rfl
    · -- no end of a comment arises where the texts meet
      intro rest hd hrest
      cases s with
      | nil => exact hc (List.cons.inj hrest).1
      | cons e s =>
        obtain ⟨he, -⟩ := List.cons.inj hrest
        exact hnot s hd (he ▸ rfl)
  | case3 => rfl

theorem sealed_append_of_notMem (h : '*' ∉ s) (t : List Char) :
    sealed (s ++ t) = s ++ sealed t := by
  induction s with
  | nil => rfl
  | cons c s ih =>
    have hs : '*' ∉ s := fun hmem => h (List.mem_cons_of_mem c hmem)
    rw [List.cons_append, sealed, ih hs]
    · rfl
    · rintro _ rfl _
      exact h List.mem_cons_self

/-- A text in which no comment ends stays as it is. -/
theorem sealed_of_endless (h : Endless s) : sealed s = s := by
  fun_induction sealed s with
  | case1 s ih => exact absurd ⟨[], s, rfl⟩ h
  | case2 c s hnot ih => rw [ih (h.mono (List.suffix_cons c s).isInfix)]
  | case3 => rfl

/-- **A text is its own first word in a comment** if it is one word, and no comment ends in it. -/
theorem firstWord_sealed_eq_iff :
    firstWord (sealed s) = s ↔ (∀ c ∈ s, Text.isBlank c = false) ∧ Endless s := by
  constructor
  · intro h
    have hprefix : firstWord (sealed s) <+: sealed s := List.takeWhile_prefix _
    rw [h] at hprefix
    refine ⟨?_, (endless_sealed s).mono hprefix.isInfix⟩
    -- a first word has no blanks
    intro c hc
    rw [← h] at hc
    simpa using List.mem_takeWhile_imp hc
  · rintro ⟨hword, hendless⟩
    rw [sealed_of_endless hendless]
    exact List.takeWhile_eq_self_iff.mpr fun c hc => by simp [hword c hc]

/-- The backslashes of a comment stand in no text without backslashes. -/
theorem prefix_of_prefix_sealed {w : List Char} (hw : '\\' ∉ w) (h : w <+: sealed s) : w <+: s := by
  induction s using sealed.induct generalizing w with
  | case1 s ih =>
    rw [sealed] at h
    -- a word of two characters or more would hold the backslash that was put in
    rcases w with _ | ⟨a, _ | ⟨b, w⟩⟩
    · exact List.nil_prefix
    · obtain ⟨rfl, -⟩ := List.cons_prefix_cons.mp h
      exact List.cons_prefix_cons.mpr ⟨rfl, List.nil_prefix⟩
    · obtain ⟨-, h⟩ := List.cons_prefix_cons.mp h
      obtain ⟨rfl, -⟩ := List.cons_prefix_cons.mp h
      exact absurd (List.mem_cons_of_mem _ List.mem_cons_self) hw
  | case2 c s hnot ih =>
    rw [sealed.eq_2 c s hnot] at h
    cases w with
    | nil => exact List.nil_prefix
    | cons a w =>
      obtain ⟨rfl, hrest⟩ := List.cons_prefix_cons.mp h
      have hw : '\\' ∉ w := fun hmem => hw (List.mem_cons_of_mem a hmem)
      exact List.cons_prefix_cons.mpr ⟨rfl, ih hw hrest⟩
  | case3 =>
    rw [sealed] at h
    exact h

theorem infix_of_infix_sealed {w : List Char} (hw : '\\' ∉ w) (h : w <:+: sealed s) : w <:+: s := by
  fun_induction sealed s with
  | case1 s ih =>
    have hslash : w <+: '/' :: sealed s → w <+: '/' :: s := by
      intro hprefix
      refine prefix_of_prefix_sealed hw ?_
      rw [sealed]
      · exact hprefix
      · exact fun _ h _ => absurd h (by decide)
    -- an occurrence starts at the star, at the backslash put in behind it, at the slash, or later
    rcases List.infix_cons_iff.mp h with hstar | h
    · have hstar : w <+: sealed ('*' :: '/' :: s) := hstar
      exact (prefix_of_prefix_sealed hw hstar).isInfix
    rcases List.infix_cons_iff.mp h with hback | h
    · cases w with
      | nil => exact List.nil_infix
      | cons a w =>
        obtain ⟨rfl, -⟩ := List.cons_prefix_cons.mp hback
        exact absurd List.mem_cons_self hw
    rcases List.infix_cons_iff.mp h with h | h
    · exact List.infix_cons (hslash h).isInfix
    · exact List.infix_cons (List.infix_cons (ih h))
  | case2 c s hnot ih =>
    rcases List.infix_cons_iff.mp h with hprefix | h
    · have hprefix : w <+: sealed (c :: s) := by
        rw [sealed]
        · exact hprefix
        · exact hnot
      exact (prefix_of_prefix_sealed hw hprefix).isInfix
    · exact List.infix_cons (ih h)
  | case3 => exact h

theorem newline_notMem_sealed (h : '\n' ∉ s) : '\n' ∉ sealed s := by
  have hnewline : '\n' ∉ s → ¬ ['\n'] <:+: sealed s := fun h hinfix =>
    h ((infix_of_infix_sealed (by decide) hinfix).subset List.mem_cons_self)
  intro hmem
  obtain ⟨a, b, hab⟩ := List.append_of_mem hmem
  exact hnewline h ⟨a, b, by rw [hab]; simp⟩

/-! ## Tags -/

/-- The mark of a line that describes a parameter. -/
def tagMark : List Char := "@param".toList

/-- What a line of a comment says behind the mark. -/
def tag? (indent line : String) : Option (List Char) :=
  Text.after? tagMark (line.toList.drop indent.length)

/-- The lines inside the comment that stands in front of a declaration, if there is one. -/
def inner (indent : String) : List String → List String
  | [] => []
  | first :: ls =>
    if first = indent ++ "/**" then ls.takeWhile fun l => l ≠ indent ++ " */" else []

/-- The tags of the comment in front of a declaration. -/
def tags (indent : String) (ls : List String) : List (List Char) :=
  (inner indent ls).filterMap (tag? indent)

/-- The name that a tag describes: its first word. -/
def tagName (tag : List Char) : String := String.ofList (firstWord (tag.drop 1))

/-- The tag of a parameter of this name and description. -/
def tagOf (name description : String) : List Char :=
  trimRight (sealed (" " ++ name ++ " " ++ description).toList)

theorem tagName_tagOf (name description : String) :
    tagName (tagOf name description) = String.ofList (firstWord (sealed name.toList)) := by
  have htext : (" " ++ name ++ " " ++ description).toList =
      [' '] ++ (name.toList ++ ' ' :: description.toList) := by
    simp [String.toList_append]
  rw [tagName, tagOf, htext, sealed_append_of_notMem (by decide),
    sealed_append_cons (by decide), List.singleton_append, Text.firstWord_trimRight]
  have hblank : sealed (' ' :: description.toList) = ' ' :: sealed description.toList :=
    sealed_append_of_notMem (s := [' ']) (by decide) _
  rw [hblank, Text.firstWord_append_cons (by decide)]

/-! ## The tags of paragraphs -/

variable {indent : String}

theorem blockLine_eq (l : List Char) :
    blockLine indent l = indent.toList ++ ' ' :: '*' :: trimRight (' ' :: l) := by
  have hline := @Text.trimRight_append_cons '*' (by decide) (indent.toList ++ [' ']) (' ' :: l)
  rw [blockLine]
  simpa using hline

theorem tag?_blockLine (l : List Char) :
    tag? indent (String.ofList (blockLine indent l)) =
      Text.after? tagMark (' ' :: '*' :: trimRight (' ' :: l)) := by
  rw [tag?, blockLine_eq, String.toList_ofList, ← String.length_toList, List.drop_left]

/-- A text without the mark has no tag. -/
theorem tag?_of_not_infix (h : ¬ tagMark <:+: s) :
    tag? indent (String.ofList (blockLine indent (trim (sealed s)))) = none := by
  -- the mark starts with an at sign, so nothing is gained by another sign in front
  have hcons : ∀ {c : Char} {t : List Char}, c ≠ '@' → tagMark <:+: c :: t → tagMark <:+: t := by
    intro c t hc ht
    rcases List.infix_cons_iff.mp ht with hprefix | ht
    · exact absurd (List.cons_prefix_cons.mp hprefix).1.symm hc
    · exact ht
  rw [tag?_blockLine, ← Option.not_isSome_iff_eq_none, Text.isSome_after?, Text.occurs_iff]
  intro hline
  have htrimmed : tagMark <:+: trimRight (' ' :: trim (sealed s)) :=
    hcons (by decide) (hcons (by decide) hline)
  have hblank : tagMark <:+: ' ' :: trim (sealed s) :=
    htrimmed.trans (isPrefix_trimRight _).isInfix
  have hsealed : tagMark <:+: sealed s := (hcons (by decide) hblank).trans (Text.infix_trim _)
  exact h (infix_of_infix_sealed (by decide) hsealed)

/-- A text that starts with the mark has the rest for its tag. -/
theorem tag?_mark_append (s : List Char) :
    tag? indent (String.ofList (blockLine indent (trim (sealed (tagMark ++ s))))) =
      some (trimRight (sealed s)) := by
  have hsealed : sealed (tagMark ++ s) = "@para".toList ++ 'm' :: sealed s :=
    sealed_append_of_notMem (by decide) s
  have hleft : Text.trimLeft ("@para".toList ++ 'm' :: sealed s) =
      "@para".toList ++ 'm' :: sealed s := rfl
  -- blanks are cut off behind the last letter of the mark at most
  have hright : trimRight (' ' :: ("@para".toList ++ 'm' :: trimRight (sealed s))) =
      " @para".toList ++ 'm' :: trimRight (sealed s) := by
    have htrim := @Text.trimRight_append_cons 'm' (by decide) " @para".toList (trimRight (sealed s))
    rw [Text.trimRight_trimRight] at htrim
    exact htrim
  have htrim : trimRight ("@para".toList ++ 'm' :: sealed s) =
      "@para".toList ++ 'm' :: trimRight (sealed s) :=
    Text.trimRight_append_cons (by decide) _ _
  rw [tag?_blockLine, hsealed, trim, hleft, htrim, hright]
  simp [Text.after?, tagMark]

/-- The tag of a paragraph of one line. -/
def paragraphTag? (indent : String) (p : Json) : Option (List Char) :=
  if p.isSet then tag? indent (String.ofList (blockLine indent (trim (sealed p.display.toList))))
  else none

theorem paragraphTag?_of_not_infix {p : Json} (h : ¬ tagMark <:+: p.display.toList) :
    paragraphTag? indent p = none := by
  rw [paragraphTag?, tag?_of_not_infix h]
  exact ite_self none

theorem paragraphTag?_param (name description : String) :
    paragraphTag? indent (.str ("@param " ++ name ++ " " ++ description)) =
      some (tagOf name description) := by
  -- the paragraph is never empty, as it starts with the mark
  have hset : (Json.str ("@param " ++ name ++ " " ++ description)).isSet = true := by
    rw [Json.isSet, bne_iff_ne]
    intro hempty
    have htext := congrArg String.toList hempty
    simp [String.toList_append] at htext
  have htext : ("@param " ++ name ++ " " ++ description).toList =
      tagMark ++ (" " ++ name ++ " " ++ description).toList := by
    simp [String.toList_append, tagMark]
  rw [paragraphTag?, if_pos hset, Json.display_str, htext, tag?_mark_append]
  rfl

/-- Paragraphs without newlines are written line by line, and what these lines say behind the mark
are the tags of the paragraphs. -/
theorem filterMap_tag?_bodyLines {ps : List Json} {ls : List (List Char)}
    (h : bodyLines ps = .ok ls) (hline : ∀ p ∈ ps, '\n' ∉ p.display.toList) :
    ls.filterMap (fun l => tag? indent (String.ofList (blockLine indent l))) =
      ps.filterMap (paragraphTag? indent) := by
  induction ps generalizing ls with
  | nil =>
    obtain rfl := Except.ok.inj h
    rfl
  | cons p ps ih =>
    obtain ⟨hp, hps⟩ := List.forall_mem_cons.mp hline
    unfold bodyLines at h
    split at h
    case isTrue hset =>
      split at h
      case h_1 s =>
        obtain ⟨rest, hrest, h⟩ := Fault.bind_eq_ok.mp h
        obtain rfl := Except.ok.inj h
        -- without a newline the paragraph is one line, and this line is its tag if it has one
        have hone : paragraphLines s.toList = [trim (sealed s.toList)] := by
          have hnewline : '\n' ∉ sealed s.toList := newline_notMem_sealed hp
          rw [paragraphLines, Text.lines, Text.cut_of_notMem hnewline]
          rfl
        rw [hone, List.singleton_append, List.filterMap_cons, List.filterMap_cons, ih hrest hps,
          paragraphTag?, if_pos hset, Json.display_str]
      case h_2 => cases h
    case isFalse hset =>
      rw [ih h hps, List.filterMap_cons, paragraphTag?, if_neg hset]

theorem ne_end_blockLine (l : List Char) :
    String.ofList (blockLine indent l) ≠ indent ++ " */" := by
  intro h
  have htext := congrArg String.toList h
  rw [String.toList_ofList, blockLine_eq, String.toList_append] at htext
  have hrest : trimRight (' ' :: l) = ['/'] := by
    simpa using List.append_cancel_left htext
  have hprefix : ['/'] <+: ' ' :: l := by
    rw [← hrest]
    exact isPrefix_trimRight _
  exact absurd (List.cons_prefix_cons.mp hprefix).1 (by decide)

/-- The lines inside a block are found again in front of other lines. -/
theorem inner_block_append {ls : List (List Char)} {rest : List String}
    (hrest : ∀ l ∈ rest.head?, l ≠ indent ++ "/**") :
    inner indent (block indent ls ++ rest) =
      ls.map fun l => String.ofList (blockLine indent l) := by
  unfold block
  split
  case isTrue hempty =>
    rw [List.isEmpty_iff.mp hempty, List.nil_append]
    cases rest with
    | nil => rfl
    | cons first rest => rw [inner, if_neg (hrest first rfl), List.map_nil]
  case isFalse =>
    -- no line inside looks like the end of the block, so the lines are taken up to the real one
    have hbody : ∀ l ∈ ls.map (fun l => String.ofList (blockLine indent l)),
        decide (l ≠ indent ++ " */") = true := by
      intro line hline
      obtain ⟨l, -, rfl⟩ := List.mem_map.mp hline
      exact decide_eq_true (ne_end_blockLine l)
    have hlast : ([indent ++ " */"] ++ rest).takeWhile (fun l => l ≠ indent ++ " */") = [] :=
      List.takeWhile_cons_of_neg (by simp)
    have htake := List.takeWhile_append_of_pos hbody |>.trans (congrArg _ hlast)
    rw [List.append_nil] at htake
    rw [List.append_assoc, List.append_assoc, List.singleton_append, inner, if_pos rfl]
    exact htake

/-- **The tags of a comment are those of its paragraphs**, if these are texts of one line. -/
theorem tags_block_append {ps : List Json} {ls : List (List Char)} (h : bodyLines ps = .ok ls)
    (hline : ∀ p ∈ ps, '\n' ∉ p.display.toList) {rest : List String}
    (hrest : ∀ l ∈ rest.head?, l ≠ indent ++ "/**") :
    tags indent (block indent ls ++ rest) = ps.filterMap (paragraphTag? indent) := by
  rw [tags, inner_block_append hrest, List.filterMap_map]
  exact filterMap_tag?_bodyLines h hline

end DocComment

end Typings
