/-!
# Taking texts apart

**Blanks.** Which characters count as white space when text is trimmed, and the three ways of
trimming. The set is the one of Unicode's bidirectional and space properties, so it is wider than
ASCII's: it holds the no-break space and the line separators, but neither the zero width space nor
the byte order mark.

**Occurrences** of a text in another, and what follows the first one.

**Pieces.** A text is cut at every occurrence of one character and at nothing else, so a text with
`n` occurrences has `n + 1` pieces, any of which may be empty. Joining the pieces again gives back
the text. Lines are the pieces between newlines.
-/

namespace Typings.Text

/-! ## Blanks -/

/-- Is `c` white space? -/
def isBlank (c : Char) : Bool :=
  let n := c.toNat
  (0x09 ≤ n && n ≤ 0x0D) || (0x1C ≤ n && n ≤ 0x20) || n == 0x85 || n == 0xA0 || n == 0x1680 ||
    (0x2000 ≤ n && n ≤ 0x200A) || n == 0x2028 || n == 0x2029 || n == 0x202F || n == 0x205F ||
    n == 0x3000

/-- `s` without the blanks it starts with. -/
def trimLeft (s : List Char) : List Char := s.dropWhile isBlank

/-- `s` without the blanks it ends with. -/
def trimRight (s : List Char) : List Char := (s.reverse.dropWhile isBlank).reverse

/-- `s` without the blanks at either end. -/
def trim (s : List Char) : List Char := trimRight (trimLeft s)

/-! ## Occurrences -/

/-- Does `word` occur in `s`, at whatever place? -/
def occurs (word : List Char) : List Char → Bool
  | [] => word.isEmpty
  | c :: s => word.isPrefixOf (c :: s) || occurs word s

/-- What follows the first occurrence of `word` in `s`. -/
def after? (word : List Char) : List Char → Option (List Char)
  | [] => if word.isEmpty then some [] else none
  | c :: s => if word.isPrefixOf (c :: s) then some ((c :: s).drop word.length) else after? word s

/-- `occurs` on strings. -/
def mentions (word s : String) : Bool := occurs word.toList s.toList

/-- A text occurs in another exactly if it is an infix of it. -/
theorem occurs_iff {word s : List Char} : occurs word s = true ↔ word <:+: s := by
  induction s with
  | nil => simp [occurs, List.infix_nil]
  | cons c s ih => simp [occurs, List.infix_cons_iff, ih]

/-- Something follows an occurrence exactly if there is one. -/
theorem isSome_after? {word s : List Char} : (after? word s).isSome = occurs word s := by
  induction s with
  | nil => cases word <;> rfl
  | cons c s ih =>
    simp only [after?, occurs]
    split <;> simp_all

/-! ## Pieces -/

/-- Put one more character in front of a text that has been cut already. -/
def consPiece (sep c : Char) : List (List Char) → List (List Char)
  | [] => if c = sep then [[], []] else [[c]]
  | p :: ps => if c = sep then [] :: p :: ps else (c :: p) :: ps

/-- The pieces of a text between the occurrences of `sep`. -/
def cut (sep : Char) (s : List Char) : List (List Char) := s.foldr (consPiece sep) [[]]

/-- The lines of a text, without their newlines. -/
def lines (s : List Char) : List (List Char) := cut '\n' s

/-- One text of several lines. -/
def unlines (ls : List (List Char)) : List Char := ['\n'].intercalate ls

@[simp] theorem cut_nil (sep : Char) : cut sep [] = [[]] := rfl

@[simp] theorem cut_cons (sep c : Char) (s : List Char) :
    cut sep (c :: s) = consPiece sep c (cut sep s) := rfl

theorem cut_ne_nil (sep : Char) (s : List Char) : cut sep s ≠ [] := by
  cases s with
  | nil => simp
  | cons c s =>
    rw [cut_cons]
    cases cut sep s <;> simp only [consPiece] <;> split <;> simp

theorem intercalate_consPiece (sep c : Char) {ps : List (List Char)} (h : ps ≠ []) :
    [sep].intercalate (consPiece sep c ps) = c :: [sep].intercalate ps := by
  cases ps with
  | nil => exact absurd rfl h
  | cons p ps =>
    simp only [consPiece]
    split
    · next hc => subst hc; simp [List.intercalate]
    · cases ps <;> simp [List.intercalate]

/-- Cutting a text loses nothing but the separators. -/
theorem intercalate_cut (sep : Char) (s : List Char) : [sep].intercalate (cut sep s) = s := by
  induction s with
  | nil => rfl
  | cons c s ih => rw [cut_cons, intercalate_consPiece sep c (cut_ne_nil sep s), ih]

/-- No piece holds the separator. -/
theorem notMem_of_mem_cut {sep : Char} {s p : List Char} (h : p ∈ cut sep s) : sep ∉ p := by
  induction s generalizing p with
  | nil => simp_all
  | cons c s ih =>
    rw [cut_cons] at h
    cases hs : cut sep s with
    | nil => exact absurd hs (cut_ne_nil sep s)
    | cons k ks =>
      rw [hs] at h ih
      simp only [consPiece] at h
      split at h
      · rcases List.mem_cons.1 h with rfl | h
        · simp
        · exact ih h
      · next hc =>
        rcases List.mem_cons.1 h with rfl | h
        · have := ih (p := k) (by simp)
          simp [this, Ne.symm hc]
        · exact ih (List.mem_cons_of_mem _ h)

theorem cut_of_notMem {sep : Char} {p : List Char} (h : sep ∉ p) : cut sep p = [p] := by
  induction p with
  | nil => rfl
  | cons c p ih =>
    obtain ⟨hc, hp⟩ := not_or.mp (mt List.mem_cons.mpr h)
    rw [cut_cons, ih hp, consPiece, if_neg (Ne.symm hc)]

theorem cut_append_cons {sep : Char} {p : List Char} (h : sep ∉ p) (s : List Char) :
    cut sep (p ++ sep :: s) = p :: cut sep s := by
  induction p with
  | nil =>
    rw [List.nil_append, cut_cons]
    cases hs : cut sep s with
    | nil => exact absurd hs (cut_ne_nil sep s)
    | cons q qs => rw [consPiece, if_pos rfl]
  | cons c p ih =>
    obtain ⟨hc, hp⟩ := not_or.mp (mt List.mem_cons.mpr h)
    rw [List.cons_append, cut_cons, ih hp, consPiece, if_neg (Ne.symm hc)]

/-! ## Lines -/

/-- The lines of a text, joined again, are the text. -/
theorem unlines_lines (s : List Char) : unlines (lines s) = s := intercalate_cut '\n' s

theorem unlines_cons {ls : List (List Char)} (h : ls ≠ []) (l : List Char) :
    unlines (l :: ls) = l ++ '\n' :: unlines ls := by
  obtain ⟨m, ls, rfl⟩ := List.exists_cons_of_ne_nil h
  rw [unlines, List.intercalate_cons_cons, List.append_assoc]
  rfl

@[simp] theorem unlines_singleton (l : List Char) : unlines [l] = l := List.intercalate_singleton

/-- **Lines that hold no newline are the lines of the text that they make.** -/
theorem lines_unlines {ls : List (List Char)} (hne : ls ≠ []) (h : ∀ l ∈ ls, '\n' ∉ l) :
    lines (unlines ls) = ls := by
  induction ls with
  | nil => exact absurd rfl hne
  | cons l ls ih =>
    obtain ⟨hl, hls⟩ := List.forall_mem_cons.mp h
    by_cases hnil : ls = []
    · rw [hnil, unlines_singleton, lines, cut_of_notMem hl]
    · rw [unlines_cons hnil, lines, cut_append_cons hl]
      exact congrArg (l :: ·) (ih hnil hls)

/-- A text in front of lines is in front of the first one. -/
theorem unlines_append_cons (s l : List Char) (ls : List (List Char)) :
    unlines ((s ++ l) :: ls) = s ++ unlines (l :: ls) := by
  by_cases hls : ls = []
  · rw [hls, unlines_singleton, unlines_singleton]
  · rw [unlines_cons hls, unlines_cons hls, List.append_assoc]

/-- Where two texts meet, the last line of one and the first line of the other are one line. -/
theorem unlines_append_unlines (front rest : List (List Char)) (last first : List Char) :
    unlines (front ++ [last]) ++ unlines (first :: rest) =
      unlines (front ++ (last ++ first) :: rest) := by
  induction front with
  | nil =>
    rw [List.nil_append, unlines_singleton, List.nil_append, unlines_append_cons]
  | cons l front ih =>
    have hleft : front ++ [last] ≠ [] := by simp
    have hright : front ++ (last ++ first) :: rest ≠ [] := by simp
    rw [List.cons_append, List.cons_append, unlines_cons hleft, unlines_cons hright, ← ih,
      List.append_assoc, List.cons_append]

/-- The lines of a text that is put together from two. -/
theorem lines_append {s t : List Char} {front rest : List (List Char)} {last first : List Char}
    (hs : lines s = front ++ [last]) (ht : lines t = first :: rest) :
    lines (s ++ t) = front ++ (last ++ first) :: rest := by
  have hmem : ∀ l ∈ front ++ [last], '\n' ∉ l := fun l hl => notMem_of_mem_cut (hs ▸ hl)
  have hmem' : ∀ l ∈ first :: rest, '\n' ∉ l := fun l hl => notMem_of_mem_cut (ht ▸ hl)
  rw [← unlines_lines s, ← unlines_lines t, hs, ht, unlines_append_unlines]
  refine lines_unlines (by simp) fun l hl => ?_
  rcases List.mem_append.mp hl with hl | hl
  · exact hmem l (List.mem_append_left _ hl)
  · rcases List.mem_cons.mp hl with rfl | hl
    · exact fun hnewline => (List.mem_append.mp hnewline).elim (hmem last (by simp))
        (hmem' first (by simp))
    · exact hmem' l (List.mem_cons_of_mem _ hl)

end Typings.Text
