import Mathlib.Data.List.Infix
import Typings.Files.SchemaFile
import Typings.Proofs.Composition.Comment
import Typings.Proofs.Scanning.Strings
import Typings.Proofs.Scanning.Values

/-!
# Stripping comments

Comments are stripped from a file without a look at its strings. Lines that start with two slashes
go first, wherever they are, and then the block that the text starts with, up to the first mark
that ends one. That this does no harm rests on what a JSON text looks like where it is read: no
line of it starts with a slash, since strings hold no newline.

The scan of `Place` goes along with the reader and says at each point whether it is inside a string.
A line that would be taken for a comment starts outside of all strings with a slash, where no
document can go on; hence the lines that were put in are taken out, and no other.

A block in front is another matter. Its end is looked for from the start of the text, so the star
of its opening may be taken for that of its end, and lines in it may be gone before it is looked at.
-/

namespace Typings

namespace Json

open Text (isBlank trimLeft lines unlines Endless)

/-! ## Lines that are read -/

theorem isCommentLine_iff {l : List Char} :
    isCommentLine l = true ↔ ∃ rest, trimLeft l = '/' :: '/' :: rest := by
  rw [isCommentLine, List.isPrefixOf_iff_prefix]
  exact ⟨fun ⟨rest, h⟩ => ⟨rest, h.symm⟩, fun ⟨rest, h⟩ => ⟨rest, h.symm⟩⟩

/-- A text that starts with a slash, behind blanks, is not gone over. -/
theorem scan_of_slash {s t : List Char} (h : trimLeft s = '/' :: t) :
    Place.scan .outside s = none := by
  have hblank : (('"' :: onlyInStrings).all fun d => !isBlank d) = true := by decide
  rw [← Place.scan_dropWhile hblank]
  exact (congrArg (Place.scan .outside) h).trans rfl

theorem scan_of_isCommentLine {l : List Char} (h : isCommentLine l = true) (rest : List Char) :
    Place.scan .outside (l ++ rest) = none := by
  obtain ⟨t, ht⟩ := isCommentLine_iff.mp h
  rw [Place.scan_append, scan_of_slash ht, Option.bind_none]

/-- No string goes on in a new line. -/
theorem outside_of_newline {p q : Place} {s : List Char} (h : p.scan ('\n' :: s) = some q) :
    p = .outside := by
  cases p with
  | outside => rfl
  | inside => cases h
  | escaped => cases h

/-- **No line of a text that is gone over is a comment.** -/
theorem not_isCommentLine_of_scan {ls : List (List Char)} {p : Place}
    (h : Place.scan .outside (unlines ls) = some p) : ∀ l ∈ ls, isCommentLine l = false := by
  induction ls with
  | nil => simp
  | cons l ls ih =>
    by_cases hnil : ls = []
    · subst hnil
      rw [Text.unlines_singleton] at h
      refine List.forall_mem_singleton.mpr (Bool.eq_false_iff.mpr fun hcomment => ?_)
      rw [← List.append_nil l, scan_of_isCommentLine hcomment] at h
      cases h
    · rw [Text.unlines_cons hnil] at h
      refine List.forall_mem_cons.mpr ⟨Bool.eq_false_iff.mpr fun hcomment => ?_, ?_⟩
      · rw [scan_of_isCommentLine hcomment] at h
        cases h
      · rw [Place.scan_append] at h
        obtain ⟨q, -, hq⟩ := Option.bind_eq_some_iff.mp h
        obtain rfl := outside_of_newline hq
        exact ih hq

theorem not_isCommentLine_of_read {J : List Char} {v : Json} (h : read J = .ok v) :
    ∀ l ∈ lines J, isCommentLine l = false := by
  have hscan := Place.scan_of_read h
  rw [← Text.unlines_lines J] at hscan
  exact not_isCommentLine_of_scan hscan

theorem dropLeadingBlock_of_read {J : List Char} {v : Json} (h : read J = .ok v) :
    dropLeadingBlock J = J := by
  unfold dropLeadingBlock
  split
  case isFalse => rfl
  case isTrue hstart =>
    obtain ⟨t, ht⟩ := List.isPrefixOf_iff_prefix.mp hstart
    have hscan := Place.scan_of_read h
    rw [scan_of_slash ht.symm] at hscan
    cases hscan

/-! ## Comment lines -/

/-- The lines `ms` are the lines `ls` with comment lines put in, before, between or behind them. -/
inductive Interspersed : List (List Char) → List (List Char) → Prop
  | nil : Interspersed [] []
  | line (l : List Char) {ls ms : List (List Char)} :
    Interspersed ls ms → Interspersed (l :: ls) (l :: ms)
  | comment {blanks rest : List Char} {ls ms : List (List Char)} :
    (∀ c ∈ blanks, isBlank c = true ∧ c ≠ '\n') → '\n' ∉ rest →
    Interspersed ls ms → Interspersed ls ((blanks ++ '/' :: '/' :: rest) :: ms)

theorem isCommentLine_blanks {blanks : List Char} (h : ∀ c ∈ blanks, isBlank c = true)
    (rest : List Char) : isCommentLine (blanks ++ '/' :: '/' :: rest) = true := by
  refine isCommentLine_iff.mpr ⟨rest, ?_⟩
  rw [DocComment.trimLeft_append (List.all_eq_true.mpr h)]
  rfl

namespace Interspersed

variable {ls ms : List (List Char)}

/-- Where no line is a comment, the comments are all that goes. -/
theorem filter (h : Interspersed ls ms) (hls : ∀ l ∈ ls, isCommentLine l = false) :
    ms.filter (fun m => !isCommentLine m) = ls := by
  induction h with
  | nil => rfl
  | line l _ ih =>
    obtain ⟨hl, hls⟩ := List.forall_mem_cons.mp hls
    rw [List.filter_cons_of_pos (by simpa using hl), ih hls]
  | comment hblanks _ _ ih =>
    have hcomment := isCommentLine_blanks fun c hc => (hblanks c hc).1
    rw [List.filter_cons_of_neg (by simpa using hcomment _), ih hls]

theorem notMem (h : Interspersed ls ms) (hls : ∀ l ∈ ls, '\n' ∉ l) : ∀ m ∈ ms, '\n' ∉ m := by
  induction h with
  | nil => simp
  | line l _ ih =>
    obtain ⟨hl, hls⟩ := List.forall_mem_cons.mp hls
    exact List.forall_mem_cons.mpr ⟨hl, ih hls⟩
  | @comment blanks rest ls ms hblanks hrest _ ih =>
    have hslashes : '\n' ∉ '/' :: '/' :: rest := by simpa using hrest
    refine List.forall_mem_cons.mpr ⟨fun hmem => ?_, ih hls⟩
    rcases List.mem_append.mp hmem with hmem | hmem
    · exact (hblanks _ hmem).2 rfl
    · exact hslashes hmem

theorem ne_nil (h : Interspersed ls ms) (hls : ls ≠ []) : ms ≠ [] := by
  cases h with
  | nil => exact absurd rfl hls
  | line => simp
  | comment => simp

end Interspersed

/--
**Stripping comments never damages JSON.**

Take a text that is read as JSON, and put in any lines that consist of white space, two slashes
and whatever else fits in a line. Stripping the comments gives back exactly the text. With no line
put in, a text without comments is left as it is, whatever its strings look like.
-/
theorem stripComments_interspersed {J : List Char} {v : Json} (h : read J = .ok v)
    {ms : List (List Char)} (hms : Interspersed (lines J) ms) :
    stripComments (unlines ms) = J := by
  have hlines : lines (unlines ms) = ms :=
    Text.lines_unlines (hms.ne_nil (Text.cut_ne_nil '\n' J))
      (hms.notMem fun l hl => Text.notMem_of_mem_cut hl)
  have hdrop : dropCommentLines (unlines ms) = J := by
    rw [dropCommentLines, hlines, hms.filter (not_isCommentLine_of_read h), Text.unlines_lines]
  rw [stripComments, hdrop, dropLeadingBlock_of_read h]

/-- A text with the marks of all comments in its strings. -/
def markedText : List Char := "[\"// a\",\n  \"/* b */\"]".toList

/-- Its lines, with a comment in front and one between them. -/
def commentedLines : List (List Char) :=
  [[] ++ '/' :: '/' :: " /*".toList, "[\"// a\",".toList, ['\t'] ++ '/' :: '/' :: " \"".toList,
    "  \"/* b */\"]".toList]

theorem stripComments_interspersed_marks :
    read markedText = .ok (.arr [.str "// a", .str "/* b */"]) ∧
      Interspersed (lines markedText) commentedLines ∧
      stripComments (unlines commentedLines) = markedText := by
  have hfirst : Spells "\"// a\",\n  \"/* b */\"]".toList "// a" ",\n  \"/* b */\"]".toList :=
    ⟨_, _, rfl, rfl, rfl⟩
  have hsecond : Spells "\n  \"/* b */\"]".toList "/* b */" [']'] := ⟨_, _, rfl, rfl, rfl⟩
  have hitems : ReadsItems [] "\"// a\",\n  \"/* b */\"]".toList [.str "// a", .str "/* b */"] [] :=
    readsItems_next (reads_string hfirst) rfl (readsItems_last (reads_string hsecond) rfl)
  have hread : read markedText = .ok (.arr [.str "// a", .str "/* b */"]) :=
    read_of_reads (by decide) (reads_list rfl (by decide) hitems) rfl
  have hlines : lines markedText = ["[\"// a\",".toList, "  \"/* b */\"]".toList] := by decide
  have hms : Interspersed (lines markedText) commentedLines := by
    have htab : ∀ c ∈ ['\t'], isBlank c = true ∧ c ≠ '\n' :=
      List.forall_mem_singleton.mpr (by decide)
    rw [hlines]
    exact .comment (by simp) (by decide) (.line _ (.comment htab (by decide) (.line _ .nil)))
  exact ⟨hread, hms, stripComments_interspersed hread hms⟩

/-! ## Comment blocks -/

/-- A text behind a comment block. -/
def behindBlock (body s : List Char) : List Char := '/' :: '*' :: body ++ '*' :: '/' :: s

/-- Does the line in which the block ends start with two slashes? The line in which it starts does
not, whatever the body says. -/
def endsInCommentLine (body : List Char) : Bool := (lines body).tail.getLast?.any isCommentLine

/-- A star behind a line does not make it a comment. -/
theorem isCommentLine_append_star (l s : List Char) :
    isCommentLine (l ++ '*' :: s) = isCommentLine l := by
  unfold isCommentLine trimLeft
  rw [List.dropWhile_append]
  split
  case isTrue hblank =>
    rw [List.isEmpty_iff.mp hblank]
    rfl
  case isFalse =>
    -- behind one slash there is the star now, and two slashes are there already
    rcases List.dropWhile isBlank l with _ | ⟨a, _ | ⟨b, t⟩⟩
    · rfl
    · simp [List.isPrefixOf]
    · rfl

/-- The last line of a block, which starts with the opening of the block if it is the only one. -/
theorem exists_lastLine (body : List Char) :
    ∃ front last, lines ('/' :: '*' :: body) = front ++ [last] ∧
      isCommentLine last = endsInCommentLine body := by
  obtain ⟨first, more, hbody⟩ := List.exists_cons_of_ne_nil (Text.cut_ne_nil '\n' body)
  have hopening : lines ['/', '*'] = [] ++ [['/', '*']] := rfl
  have hlines : lines ('/' :: '*' :: body) = ('/' :: '*' :: first) :: more :=
    Text.lines_append hopening hbody
  rw [hlines, endsInCommentLine, show lines body = first :: more from hbody, List.tail_cons]
  rcases List.eq_nil_or_concat' more with rfl | ⟨init, last, rfl⟩
  · exact ⟨[], _, rfl, rfl⟩
  · refine ⟨('/' :: '*' :: first) :: init, last, rfl, ?_⟩
    rw [List.getLast?_concat]
    rfl

theorem exists_firstLine (s : List Char) :
    ∃ first rest, lines s = first :: rest ∧
      lines ('*' :: '/' :: s) = ('*' :: '/' :: first) :: rest := by
  obtain ⟨first, rest, hs⟩ := List.exists_cons_of_ne_nil (Text.cut_ne_nil '\n' s)
  have hmark : lines ['*', '/'] = [] ++ [['*', '/']] := rfl
  exact ⟨first, rest, hs, Text.lines_append hmark hs⟩

/-- If the end of a block is not in a comment line, only lines of the block go. -/
theorem dropCommentLines_behindBlock {body s : List Char} (hend : endsInCommentLine body = false)
    (hs : ∀ l ∈ lines s, isCommentLine l = false) :
    dropCommentLines (behindBlock body s) =
      dropCommentLines ('/' :: '*' :: body) ++ '*' :: '/' :: s := by
  obtain ⟨front, last, hblock, hlast⟩ := exists_lastLine body
  obtain ⟨first, rest, hfirst, hrest⟩ := exists_firstLine s
  have hkept : isCommentLine last = false := hlast.trans hend
  have hkept' : isCommentLine (last ++ '*' :: '/' :: first) = false :=
    (isCommentLine_append_star last _).trans hkept
  have hself : rest.filter (fun l => !isCommentLine l) = rest :=
    List.filter_eq_self.mpr fun l hl => by simp [hs l (hfirst ▸ List.mem_cons_of_mem _ hl)]
  rw [dropCommentLines, behindBlock, Text.lines_append hblock hrest, dropCommentLines, hblock,
    List.filter_append, List.filter_append, List.filter_cons_of_pos (by simpa using hkept'), hself,
    List.filter_cons_of_pos (by simpa using hkept), List.filter_nil, ← Text.unlines_append_unlines,
    ← hrest, Text.unlines_lines]

/-- If the end of a block is in a comment line, it goes, and with it all that is in the line. -/
theorem exists_dropCommentLines_behindBlock {body : List Char}
    (hend : endsInCommentLine body = true) :
    ∃ left, ∀ s, '\n' ∉ s → dropCommentLines (behindBlock body s) = left := by
  obtain ⟨front, last, hblock, hlast⟩ := exists_lastLine body
  refine ⟨unlines (front.filter fun l => !isCommentLine l), fun s hs => ?_⟩
  have hmark : lines ('*' :: '/' :: s) = ['*' :: '/' :: s] :=
    Text.cut_of_notMem (by simpa using hs)
  have hdropped : isCommentLine (last ++ '*' :: '/' :: s) = true :=
    (isCommentLine_append_star last _).trans (hlast.trans hend)
  rw [dropCommentLines, behindBlock, Text.lines_append hblock hmark, List.filter_append,
    List.filter_cons_of_neg (by simpa using hdropped), List.filter_nil, List.append_nil]

/-- The line in which a block starts stays. -/
theorem exists_dropCommentLines_opening {u : List Char} (hu : '\n' ∉ u) (s : List Char) :
    ∃ t, dropCommentLines ('/' :: '*' :: u ++ s) = '/' :: '*' :: u ++ t := by
  obtain ⟨first, rest, hs⟩ := List.exists_cons_of_ne_nil (Text.cut_ne_nil '\n' s)
  have hopening : lines ('/' :: '*' :: u) = [] ++ ['/' :: '*' :: u] :=
    Text.cut_of_notMem (by simpa using hu)
  refine ⟨unlines (first :: rest.filter fun l => !isCommentLine l), ?_⟩
  rw [dropCommentLines, Text.lines_append hopening hs, List.nil_append,
    List.filter_cons_of_pos rfl, Text.unlines_append_cons]

/-! ### The first mark that ends a comment -/

theorem endless_unlines {ls : List (List Char)} (h : ∀ l ∈ ls, Endless l) :
    Endless (unlines ls) := by
  induction ls with
  | nil => exact Text.endless_nil
  | cons l ls ih =>
    obtain ⟨hl, hls⟩ := List.forall_mem_cons.mp h
    by_cases hnil : ls = []
    · rw [hnil, Text.unlines_singleton]
      exact hl
    · have hnewline : Endless ['\n'] := Text.endless_of_notMem (by decide)
      rw [Text.unlines_cons hnil]
      exact hl.append (hnewline.append (ih hls) (Or.inl (by decide))) (Or.inr (by simp))

/-- Leaving out lines ends no comment. -/
theorem endless_dropCommentLines {s : List Char} (h : Endless s) : Endless (dropCommentLines s) :=
  endless_unlines fun _ hl => h.mono (Text.infix_of_mem_lines (List.mem_filter.mp hl).1)

theorem after?_of_endless {s : List Char} (h : Endless s) (t : List Char) :
    Text.after? ['*', '/'] (s ++ '*' :: '/' :: t) = some t := by
  induction s with
  | nil => rfl
  | cons c s ih =>
    have hnot : ¬ ['*', '/'].isPrefixOf (c :: (s ++ '*' :: '/' :: t)) = true := by
      rw [List.isPrefixOf_iff_prefix, List.cons_prefix_cons]
      rintro ⟨rfl, hslash⟩
      cases s with
      | nil => simp at hslash
      | cons d s =>
        obtain ⟨rfl, -⟩ := List.cons_prefix_cons.mp hslash
        exact h ⟨[], s, rfl⟩
    rw [List.cons_append, Text.after?, if_neg hnot]
    exact ih (h.mono (List.suffix_cons c s).isInfix)

/-- **A block in front of JSON is stripped**, and nothing else is, if it does not start with a slash
and does not end in a line that starts with two. -/
theorem stripComments_behindBlock {body J : List Char} {v : Json} (hbody : Endless body)
    (hstart : body.head? ≠ some '/') (hend : endsInCommentLine body = false)
    (h : read J = .ok v) : stripComments (behindBlock body J) = J := by
  have hopening : Endless ['/', '*'] := by
    rw [Endless]
    decide
  have hblock : Endless (dropCommentLines ('/' :: '*' :: body)) :=
    endless_dropCommentLines (hopening.append hbody (Or.inr hstart))
  obtain ⟨t, ht⟩ := exists_dropCommentLines_opening (u := []) (by simp) body
  have hprefix : ['/', '*'].isPrefixOf
      (trimLeft (dropCommentLines ('/' :: '*' :: body) ++ '*' :: '/' :: J)) = true := by
    rw [show dropCommentLines ('/' :: '*' :: body) = '/' :: '*' :: t from ht]
    rfl
  rw [stripComments, dropCommentLines_behindBlock hend (not_isCommentLine_of_read h),
    dropLeadingBlock, if_pos hprefix, after?_of_endless hblock]
  rfl

/-- A block that starts with a slash seems to end where it starts. -/
theorem exists_stripComments_slash {b : List Char} (hend : endsInCommentLine ('/' :: b) = false) :
    ∃ t, ∀ s, (∀ l ∈ lines s, isCommentLine l = false) →
      stripComments (behindBlock ('/' :: b) s) = t ++ '*' :: '/' :: s := by
  obtain ⟨t, ht⟩ := exists_dropCommentLines_opening (u := ['/']) (by decide) b
  refine ⟨t, fun s hs => ?_⟩
  rw [stripComments, dropCommentLines_behindBlock hend hs]
  rw [show dropCommentLines ('/' :: '*' :: '/' :: b) = '/' :: '*' :: '/' :: t from ht]
  rfl

/--
**Which comment blocks are stripped.**

Take what stands in a block between its opening and the first mark that ends a comment. The block
is stripped whatever is read behind it, so that this is read as it would be without the block,
exactly if it does not start with a slash, which would make an end of the opening, and its last
line, if it has several, does not start with two, which would take the end away.
-/
theorem read_behindBlock_iff {body : List Char} (hbody : Endless body) :
    (∀ J v, read J = .ok v → read (stripComments (behindBlock body J)) = .ok v) ↔
      body.head? ≠ some '/' ∧ endsInCommentLine body = false := by
  constructor
  · intro hall
    have hzero : read ['0'] = .ok (.int 0) :=
      read_of_reads (by decide) (reads_scalar rfl (by decide) rfl (by decide)) rfl
    have hone : read ['1'] = .ok (.int 1) :=
      read_of_reads (by decide) (reads_scalar rfl (by decide) rfl (by decide)) rfl
    have hend : endsInCommentLine body = false := by
      refine Bool.eq_false_iff.mpr fun hend => ?_
      -- what is left does not say whether a zero or a one went with the end of the block
      obtain ⟨left, hleft⟩ := exists_dropCommentLines_behindBlock hend
      have hread := hall ['0'] _ hzero
      have hread' := hall ['1'] _ hone
      rw [stripComments, hleft _ (by decide)] at hread hread'
      rw [hread] at hread'
      cases hread'
    refine ⟨fun hstart => ?_, hend⟩
    obtain ⟨b, rfl⟩ := List.head?_eq_some_iff.mp hstart
    obtain ⟨t, ht⟩ := exists_stripComments_slash hend
    -- the end that was meant is still there, and a zero behind it
    have hread := hall ['0'] _ hzero
    rw [ht _ (not_isCommentLine_of_read hzero)] at hread
    exact read_behind_mark hread _ hzero
  · rintro ⟨hstart, hend⟩ J v h
    rw [stripComments_behindBlock hbody hstart hend h, h]

/-- The inside of a block with a star at either end and a line that starts with two slashes. -/
def licenseBody : List Char := "* Terms\n // of use\n *".toList

theorem read_behindBlock_iff_license :
    Endless licenseBody ∧ (licenseBody.head? ≠ some '/' ∧ endsInCommentLine licenseBody = false) ∧
      ((∀ J v, read J = .ok v → read (stripComments (behindBlock licenseBody J)) = .ok v) ↔
        licenseBody.head? ≠ some '/' ∧ endsInCommentLine licenseBody = false) := by
  have hbody : Endless licenseBody := by
    rw [Endless]
    decide
  exact ⟨hbody, by decide, read_behindBlock_iff hbody⟩

/-- Not every block is stripped: one that starts with a slash is taken to end there. -/
theorem read_behindBlock_slash :
    ¬ ∀ (body J : List Char) (v : Json), Endless body → read J = .ok v →
      read (stripComments (behindBlock body J)) = .ok v := by
  intro h
  have hread : read "[]".toList = .ok (.arr []) :=
    read_of_reads (by decide) (reads_list_nil rfl rfl) rfl
  have hbody : Endless "/ x ".toList := by
    rw [Endless]
    decide
  have hstrip : stripComments (behindBlock "/ x ".toList "[]".toList) =
    " x ".toList ++ '*' :: '/' :: "[]".toList := by decide
  have hleft := h _ _ _ hbody hread
  rw [hstrip] at hleft
  exact read_behind_mark hleft _ hread

end Json

end Typings
