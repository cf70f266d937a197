import Mathlib.Data.List.Basic
import Typings.Proofs.DeclaredNames
import Typings.Proofs.MergeableRecords

/-!
# Functions named by reserved words

A function whose name is a reserved word is declared with a mark in front of the name, and
exported under the name itself. Under which name a function is declared can be told from its
lines alone: only an overload starts behind its indent with `function`, and the name ends at the
first parenthesis.

So no function is declared under a reserved word. Two functions of different names share the name
they are declared under only if one name is the other with the mark in front of it, and the name
of the other is reserved. And since every function brings its own export, a reserved word is
exported as often as there are functions of that name.
-/

namespace Typings

namespace Reserved

/-- The name under which a function is declared. -/
def declared (s : String) : String := if isReserved s then mark ++ s else s

/-- No reserved word starts with the mark. -/
theorem isReserved_mark (s : String) : isReserved (mark ++ s) = false := by
  have hwords : words.all (fun w => w.toList.head? != some '_') = true := by decide
  have hmark : (mark ++ s).toList.head? = some '_' := by
    rw [String.toList_append]
    rfl
  by_contra hreserved
  have hword : mark ++ s ∈ words := by
    rw [Bool.not_eq_false, isReserved, List.contains_iff_mem] at hreserved
    exact hreserved
  exact absurd hmark (by simpa using List.all_eq_true.mp hwords _ hword)

/-- **No name is declared as a reserved word.** -/
theorem isReserved_declared (s : String) : isReserved (declared s) = false := by
  unfold declared
  split
  case isTrue => exact isReserved_mark s
  case isFalse h => simpa using h

theorem declared_mark (s : String) : declared (mark ++ s) = mark ++ s :=
  if_neg (by rw [isReserved_mark]; decide)

theorem ne_mark_append (s : String) : s ≠ mark ++ s := by
  intro h
  have hlength := congrArg (fun s : String => s.toList.length) h
  simp [mark, String.toList_append] at hlength

/-- **Two names are declared alike only if one of them is reserved and the other is what it is
declared as.** -/
theorem declared_eq_declared {a b : String} (h : declared a = declared b) :
    a = b ∨ isReserved a = true ∧ b = mark ++ a ∨ isReserved b = true ∧ a = mark ++ b := by
  unfold declared at h
  split at h <;> split at h
  · exact .inl ((String.append_right_inj mark).mp h)
  case isTrue.isFalse ha _ => exact .inr (.inl ⟨ha, h.symm⟩)
  case isFalse.isTrue _ hb => exact .inr (.inr ⟨hb, h⟩)
  · exact .inl h

end Reserved

namespace Declaration

open Schema (Callable Record)

/-! ## Lines that declare or export a function -/

/-- What a line that declares a function starts with. -/
def functionHead : String := "  function "

/-- The name that a line declares a function under. -/
def declaredFunction? (line : String) : Option String :=
  if functionHead.toList.isPrefixOf line.toList then
    some (String.ofList ((line.toList.drop functionHead.toList.length).takeWhile (· ≠ '(')))
  else none

/-- The line that exports a function under its own name. -/
def reexport (name : String) : String :=
  "  export \x7b " ++ (Reserved.mark ++ name) ++ " as " ++ name ++ " \x7d;"

theorem declaredFunction?_head {name : String} (h : '(' ∉ name.toList) (s : String) :
    declaredFunction? (functionHead ++ name ++ "(" ++ s) = some name := by
  have hline : (functionHead ++ name ++ "(" ++ s).toList =
      functionHead.toList ++ (name.toList ++ '(' :: s.toList) := by
    simp [String.toList_append]
  have hname : ∀ c ∈ name.toList, decide (c ≠ '(') = true :=
    fun c hc => decide_eq_true fun he => h (he ▸ hc)
  unfold declaredFunction?
  rw [hline, if_pos (List.isPrefixOf_iff_prefix.mpr (List.prefix_append _ _)), List.drop_left,
    List.takeWhile_append_of_pos hname]
  simp

/-- The third character tells a declaration from any other line. -/
theorem declaredFunction?_eq_none {line : String} {c : Char} (hc : c ≠ 'f')
    (h : [' ', ' ', c] <+: line.toList) : declaredFunction? line = none := by
  refine if_neg fun hhead => hc ?_
  obtain ⟨s, hs⟩ := h
  have hprefix := List.isPrefixOf_iff_prefix.mp hhead
  rw [← hs] at hprefix
  simp only [functionHead, String.reduceToList, List.cons_append, List.cons_prefix_cons,
    true_and] at hprefix
  exact hprefix.1.symm

theorem prefix_reexport (name : String) : [' ', ' ', 'e'] <+: (reexport name).toList := by
  simp only [reexport, String.toList_append, String.reduceToList, List.cons_append]
  exact ⟨_, rfl⟩

theorem declaredFunction?_reexport (name : String) : declaredFunction? (reexport name) = none :=
  declaredFunction?_eq_none (by decide) (prefix_reexport name)

/-- A line that starts like neither of them is no export. -/
theorem ne_reexport {line : String} {c : Char} (hc : c ≠ 'e')
    (h : [' ', ' ', c] <+: line.toList) (name : String) : line ≠ reexport name := by
  rintro rfl
  have hchar : 'e' = c := by
    have h₁ := List.prefix_iff_eq_take.mp h
    have h₂ := List.prefix_iff_eq_take.mp (prefix_reexport name)
    simpa using h₂.trans h₁.symm
  exact hc hchar.symm

/-- **A line exports one name only.** -/
theorem reexport_injective : Function.Injective reexport := by
  intro a b h
  have hchars := congrArg String.toList h
  simp only [reexport, String.toList_append, List.append_assoc] at hchars
  have hlength := congrArg List.length hchars
  simp only [List.length_append] at hlength
  -- the name stands in the line twice, so the lines tell its length
  have hname := List.append_cancel_left (List.append_cancel_left hchars)
  exact String.toList_inj.mp (List.append_inj_left hname (by omega))

/-- The lines of one function: it is declared under one name, and exported once if its name is
a reserved word. -/
structure DeclaresFunction (name : String) (ls : List String) : Prop where
  declared : Reserved.declared name ∈ ls.filterMap declaredFunction?
  only : ∀ declared ∈ ls.filterMap declaredFunction?, declared = Reserved.declared name
  exported : ∀ x, ls.count (reexport x) =
    if Reserved.isReserved name = true ∧ name = x then 1 else 0

/-- The export of a function that has to be renamed. -/
def reexports (name : String) : List String :=
  if Reserved.isReserved name = true then [reexport name] else []

/-- Overloads of one name, between a comment and the export, are such lines. -/
theorem declaresFunction_of_parts {name : String} {doc overloads : List String}
    (hdoc : ∀ line ∈ doc, declaredFunction? line = none ∧ ∀ n, line ≠ reexport n)
    (hoverloads : ∀ line ∈ overloads,
      declaredFunction? line = some (Reserved.declared name) ∧ ∀ n, line ≠ reexport n)
    (hne : overloads ≠ []) : DeclaresFunction name (doc ++ overloads ++ reexports name) := by
  have hexport : (reexports name).filterMap declaredFunction? = [] := by
    unfold reexports
    split
    · rw [List.filterMap_cons_none (declaredFunction?_reexport name), List.filterMap_nil]
    · rfl
  -- only the overloads declare the name, and each of them does
  have hnames : (doc ++ overloads ++ reexports name).filterMap declaredFunction? =
      overloads.map fun _ => Reserved.declared name := by
    rw [List.filterMap_append, List.filterMap_append, hexport, List.append_nil,
      List.filterMap_eq_nil_iff.mpr fun line hline => (hdoc line hline).1, List.nil_append,
      List.filterMap_eq_map_iff_forall_eq_some.mpr fun line hline => (hoverloads line hline).1]
  constructor
  · rw [hnames, List.map_const', List.mem_replicate]
    exact ⟨mt List.length_eq_zero_iff.mp hne, rfl⟩
  · intro declared hmem
    rw [hnames] at hmem
    obtain ⟨_, -, rfl⟩ := List.mem_map.mp hmem
    rfl
  · intro x
    rw [List.count_append, List.count_append,
      List.count_eq_zero.mpr fun hmem => (hdoc _ hmem).2 x rfl,
      List.count_eq_zero.mpr fun hmem => (hoverloads _ hmem).2 x rfl, Nat.zero_add, reexports]
    -- the name is exported once if it is reserved, and never if it is not
    by_cases hreserved : Reserved.isReserved name = true
    · simp [hreserved, List.count_singleton, reexport_injective.eq_iff]
    · simp [hreserved]

end Declaration

namespace Signature

open Declaration

/-! ## The lines of a function -/

/-- An overload goes on with the name behind its head. -/
theorem renderOne_declaration {name : String} {returns : Expression} {inputs : List Input}
    {line : String}
    (h : (renderOne Style.declaration (.str name) returns inputs).result = .ok line) :
    ∃ s, line = functionHead ++ name ++ "(" ++ s := by
  simp only [renderOne, Outcome.bind_result_eq_ok, Outcome.pure_result_eq_ok] at h
  obtain ⟨arguments, -, head, hhead, rfl⟩ := h
  obtain rfl : "function " ++ name = head := Except.ok.inj hhead
  refine ⟨", ".intercalate arguments ++ "): " ++ returns.toText ++ ";", ?_⟩
  have hhead : functionHead = Style.declaration.indent ++ "function " := rfl
  simp only [hhead, Style.declaration, Bool.false_eq_true, if_false, String.append_assoc]

theorem renderEach_declaration {name : String} {returns : Expression}
    {overloads : List (List Input)} {ls : List String}
    (h : (renderEach Style.declaration (.str name) returns overloads).result = .ok ls) :
    ls.length = overloads.length ∧ ∀ line ∈ ls, ∃ s, line = functionHead ++ name ++ "(" ++ s := by
  induction overloads generalizing ls with
  | nil =>
    rw [renderEach, Outcome.pure_result_eq_ok] at h
    subst h
    exact ⟨rfl, by simp⟩
  | cons inputs rest ih =>
    simp only [renderEach, Outcome.bind_result_eq_ok, Outcome.pure_result_eq_ok] at h
    obtain ⟨line, hline, lines, hlines, rfl⟩ := h
    obtain ⟨hlength, hall⟩ := ih hlines
    exact ⟨congrArg (· + 1) hlength,
      List.forall_mem_cons.mpr ⟨renderOne_declaration hline, hall⟩⟩

/-- A comment neither declares nor exports a function. -/
theorem comment_declaration {s : Signature} {shape : CallShape} {doc : List String}
    (h : s.comment Style.declaration shape = .ok doc) :
    ∀ line ∈ doc, declaredFunction? line = none ∧ ∀ name, line ≠ reexport name := by
  intro line hline
  obtain ⟨c, hc, hprefix⟩ := Declaration.mem_render h hline
  have hchar : c ≠ 'f' ∧ c ≠ 'e' := by
    simp only [List.mem_cons, List.not_mem_nil, or_false] at hc
    rcases hc with rfl | rfl | rfl <;> decide
  exact ⟨declaredFunction?_eq_none hchar.1 hprefix, ne_reexport hchar.2 hprefix⟩

theorem overload_declaration {name : String} (h : '(' ∉ name.toList) (s : String) :
    declaredFunction? (functionHead ++ name ++ "(" ++ s) = some name ∧
      ∀ n, functionHead ++ name ++ "(" ++ s ≠ reexport n := by
  have hdeclared := declaredFunction?_head h s
  refine ⟨hdeclared, fun n hn => ?_⟩
  rw [hn, declaredFunction?_reexport] at hdeclared
  cases hdeclared

/-- The mark is no parenthesis. -/
theorem not_mem_declared {name : String} (h : '(' ∉ name.toList) :
    '(' ∉ (Reserved.declared name).toList := by
  unfold Reserved.declared
  split
  · rw [String.toList_append, List.mem_append]
    exact not_or.mpr ⟨by decide, h⟩
  · exact h

/-- **The lines of a function declare it under one name**, and export it if that is not its
own. -/
theorem declaresFunction_lines {current name : String} {s : Signature} {ls : List String}
    (hname : s.name = .str name) (hparenthesis : '(' ∉ name.toList)
    (h : (s.lines Style.declaration current).result = .ok ls) : DeclaresFunction name ls := by
  simp only [lines, Outcome.bind_result_eq_ok, Outcome.pure_result_eq_ok] at h
  obtain ⟨shape, -, renamed, hrenamed, doc, hdoc, overloads, hoverloads, rfl⟩ := h
  rw [hname] at hrenamed hoverloads ⊢
  obtain rfl : Reserved.isReserved name = renamed := Except.ok.inj hrenamed
  have hdeclared : (if Reserved.isReserved name = true then
      Json.str (Reserved.mark ++ (Json.str name).display) else .str name) =
      .str (Reserved.declared name) := by
    unfold Reserved.declared
    split <;> rfl
  have hexports : (if Reserved.isReserved name = true then
      [exportLine Style.declaration (Reserved.declared name) name] else []) = reexports name := by
    unfold Reserved.declared reexports
    split <;> rfl
  rw [hdeclared] at hoverloads ⊢
  obtain ⟨hlength, heach⟩ := renderEach_declaration hoverloads
  simp only [Json.display, hexports]
  refine declaresFunction_of_parts (comment_declaration hdoc) (fun line hline => ?_) ?_
  · obtain ⟨rest, rfl⟩ := heach line hline
    exact overload_declaration (not_mem_declared hparenthesis) rest
  · -- there is at least one overload
    rintro rfl
    exact Overload.lists_ne_nil _ _ (List.length_eq_zero_iff.mp hlength.symm)

end Signature

namespace Declaration

open Schema (Callable Record)

/-! ## The lines of all functions -/

/-- What is collected holds a line once for every declaration that does. -/
theorem count_collect {α : Type} {f : α → Outcome (List String)} {p : α → Bool} {line : String}
    {as : List α} {ls : List String} (h : (collect f as).result = .ok ls)
    (hf : ∀ a ∈ as, ∀ la, (f a).result = .ok la → la.count line = if p a then 1 else 0) :
    ls.count line = as.countP p := by
  induction as generalizing ls with
  | nil =>
    rw [collect, Outcome.pure_result_eq_ok] at h
    subst h
    rfl
  | cons a as ih =>
    simp only [collect, Outcome.bind_result_eq_ok, Outcome.pure_result_eq_ok] at h
    obtain ⟨la, hla, rest, hrest, rfl⟩ := h
    rw [List.count_append, hf a List.mem_cons_self la hla,
      ih hrest fun b hb => hf b (List.mem_cons_of_mem a hb), List.countP_cons, Nat.add_comm]

/-- The lines of the function declare it under this name. -/
def DeclaredAs (scope : Scope) (c : Callable) (name : String) : Prop :=
  ∃ ls, ((c.signature scope).lines Signature.Style.declaration scope.current).result = .ok ls ∧
    name ∈ ls.filterMap declaredFunction?

/-- All functions of the record are named by identifiers. -/
def NamesFunctions (r : Record) : Prop :=
  ∀ c ∈ r.functions, ∃ name, c.name = .str name ∧ PropertyKey.isIdentifier name.toList = true

/-- All parameters of its functions are. -/
def NamesParameters (r : Record) : Prop := ∀ c ∈ r.functions, ∀ p ∈ c.parameters,
  ∃ name, p.name = .str name ∧ PropertyKey.isIdentifier name.toList = true

/-- Some supported function of the record has this name. -/
def HasFunction (r : Record) (name : String) : Prop :=
  ∃ c ∈ supported r.functions, c.name = .str name

/-- No two supported functions of different names are declared under the same one. -/
def DeclaresApart (scope : Scope) (r : Record) : Prop :=
  ∀ c ∈ supported r.functions, ∀ d ∈ supported r.functions, ∀ name,
    DeclaredAs scope c name → DeclaredAs scope d name → c.name = d.name

theorem not_mem_of_isIdentifier {name : List Char} (h : PropertyKey.isIdentifier name = true) :
    '(' ∉ name :=
  fun hmem => absurd (PropertyKey.isPart_of_isIdentifier h '(' hmem) (by decide)

section Scope

variable {scope : Scope} {r : Record} {lines : List String}

/-- A function of the record has a name and lines that declare it. -/
theorem exists_declaresFunction (hnames : NamesFunctions r)
    (h : (functionsLines scope r).result = .ok lines) {c : Callable}
    (hc : c ∈ supported r.functions) :
    ∃ name, c.name = .str name ∧ ∃ ls, DeclaresFunction name ls ∧
      ((c.signature scope).lines Signature.Style.declaration scope.current).result = .ok ls := by
  obtain ⟨name, hname, hidentifier⟩ := hnames c (List.mem_filter.mp hc).1
  obtain ⟨ls, hls⟩ := exists_of_collect h c hc
  exact ⟨name, hname, ls,
    Signature.declaresFunction_lines hname (not_mem_of_isIdentifier hidentifier) hls, hls⟩

/-- A function is declared under one name. -/
theorem declaredAs_iff (hnames : NamesFunctions r)
    (h : (functionsLines scope r).result = .ok lines) {c : Callable}
    (hc : c ∈ supported r.functions) {name : String} (hname : c.name = .str name)
    {declared : String} : DeclaredAs scope c declared ↔ declared = Reserved.declared name := by
  obtain ⟨name', hname', ls, hdeclares, hls⟩ := exists_declaresFunction hnames h hc
  obtain rfl : name' = name := Json.str_inj.mp (hname'.symm.trans hname)
  constructor
  · rintro ⟨ls', hls', hmem⟩
    obtain rfl : ls = ls' := Except.ok.inj (hls.symm.trans hls')
    exact hdeclares.only declared hmem
  · rintro rfl
    exact ⟨ls, hls, hdeclares.declared⟩

/-- **No function is declared under a reserved word.** -/
theorem isReserved_declaredFunction (hnames : NamesFunctions r)
    (h : (functionsLines scope r).result = .ok lines) :
    ∀ name ∈ lines.filterMap declaredFunction?, Reserved.isReserved name = false := by
  intro declared hmem
  obtain ⟨line, hline, hdeclared⟩ := List.mem_filterMap.mp hmem
  obtain ⟨c, hc, ls, hls, hline⟩ := (mem_collect h line).mp hline
  obtain ⟨name, hname, -⟩ := exists_declaresFunction hnames h hc
  have hname : declared = Reserved.declared name :=
    (declaredAs_iff hnames h hc hname).mp ⟨ls, hls, List.mem_filterMap.mpr ⟨line, hline, hdeclared⟩⟩
  exact hname ▸ Reserved.isReserved_declared name

/-- **When two functions share the name they are declared under.** -/
theorem declaresApart_iff (hnames : NamesFunctions r)
    (h : (functionsLines scope r).result = .ok lines) : DeclaresApart scope r ↔
      ∀ word, Reserved.isReserved word = true → HasFunction r word →
        ¬ HasFunction r (Reserved.mark ++ word) := by
  constructor
  · rintro hapart word hword ⟨c, hc, hcname⟩ ⟨d, hd, hdname⟩
    have hsame := hapart c hc d hd (Reserved.mark ++ word)
      ((declaredAs_iff hnames h hc hcname).mpr (if_pos hword).symm)
      ((declaredAs_iff hnames h hd hdname).mpr (Reserved.declared_mark word).symm)
    rw [hcname, hdname] at hsame
    exact Reserved.ne_mark_append word (Json.str_inj.mp hsame)
  · intro hwords c hc d hd declared hcdecl hddecl
    obtain ⟨a, hcname, -⟩ := exists_declaresFunction hnames h hc
    obtain ⟨b, hdname, -⟩ := exists_declaresFunction hnames h hd
    have hdeclared : Reserved.declared a = Reserved.declared b :=
      ((declaredAs_iff hnames h hc hcname).mp hcdecl).symm.trans
        ((declaredAs_iff hnames h hd hdname).mp hddecl)
    -- two names are declared alike if they are equal, or one is the other with the mark
    rcases Reserved.declared_eq_declared hdeclared with rfl | ⟨ha, rfl⟩ | ⟨hb, rfl⟩
    · rw [hcname, hdname]
    · exact absurd ⟨d, hd, hdname⟩ (hwords a ha ⟨c, hc, hcname⟩)
    · exact absurd ⟨c, hc, hcname⟩ (hwords b hb ⟨d, hd, hdname⟩)

/-- **A reserved word is exported once for every function of that name.** -/
theorem count_reexport (hnames : NamesFunctions r)
    (h : (functionsLines scope r).result = .ok lines) {word : String}
    (hword : Reserved.isReserved word = true) :
    lines.count (reexport word) = (supported r.functions).countP (·.name = .str word) := by
  refine count_collect h fun c hc ls hls => ?_
  obtain ⟨name, hname, ls', hdeclares, hls'⟩ := exists_declaresFunction hnames h hc
  obtain rfl : ls' = ls := Except.ok.inj (hls'.symm.trans hls)
  rw [hdeclares.exported word, hname]
  refine if_congr ?_ rfl rfl
  rw [decide_eq_true_eq, Json.str_inj]
  exact ⟨And.right, fun heq => ⟨heq ▸ hword, heq⟩⟩

end Scope

/--
**How functions named by reserved words are declared.**

No function of a namespace is declared under a reserved word. Functions of different names are
declared under different ones unless a function has a reserved word for its name and another
one has the same word with the mark in front. And a reserved word is exported as often as the
namespace has supported functions of that name, so just once exactly if it has just one.
-/
theorem functionsLines_reserved {rs : List Record} {ignored : Table.Ignored} {t : Table}
    (hnames : ∀ s ∈ rs, NamesFunctions s) (ht : Table.build rs ignored = .ok t) {r : Record}
    (hr : r ∈ t.records) {lines : List String}
    (h : (functionsLines ⟨r.name, t⟩ r).result = .ok lines) :
    (∀ name ∈ lines.filterMap declaredFunction?, Reserved.isReserved name = false) ∧
      (DeclaresApart ⟨r.name, t⟩ r ↔
        ∀ word, Reserved.isReserved word = true → HasFunction r word →
          ¬ HasFunction r (Reserved.mark ++ word)) ∧
      ∀ word, Reserved.isReserved word = true →
        lines.count (reexport word) = (supported r.functions).countP (·.name = .str word) := by
  have hrecord : NamesFunctions r := by
    intro c hc
    obtain ⟨s, hs, hmem⟩ := (Table.madeOf_of_build ht hr).1.functions c hc
    exact hnames s (Table.mem_group.mp hs).1 c hmem
  exact ⟨isReserved_declaredFunction hrecord h, declaresApart_iff hrecord h,
    fun _ => count_reexport hrecord h⟩

/-- A function of this name and parameters that returns nothing. -/
def procedure (name : String) (parameters : List Schema.Parameter) : Callable :=
  ⟨.str name, .bool false, .null, parameters, none, .bool false, false⟩

/-- Two functions, one of which is named by a reserved word. -/
def bookmarksRecord : Record where
  name := "bookmarks"
  functions := [procedure "import" [], procedure "get" []]

/-- The lines that declare them. -/
def bookmarksLines : List String :=
  ["  function _import(): void;", "  export \x7b _import as import \x7d;",
   "  function get(): void;"]

theorem functionsLines_reserved_bookmarks :
    ∃ h : ([bookmarksRecord].map Record.name).Nodup,
      (∀ s ∈ [bookmarksRecord], NamesFunctions s) ∧
      Table.build [bookmarksRecord] (.listed []) = .ok ⟨[bookmarksRecord], h⟩ ∧
      bookmarksRecord ∈ [bookmarksRecord] ∧
      (functionsLines ⟨"bookmarks", ⟨[bookmarksRecord], h⟩⟩ bookmarksRecord).result =
        .ok bookmarksLines ∧
      (∀ name ∈ bookmarksLines.filterMap declaredFunction?, Reserved.isReserved name = false) ∧
      (DeclaresApart ⟨"bookmarks", ⟨[bookmarksRecord], h⟩⟩ bookmarksRecord ↔
        ∀ word, Reserved.isReserved word = true → HasFunction bookmarksRecord word →
          ¬ HasFunction bookmarksRecord (Reserved.mark ++ word)) ∧
      bookmarksLines.count (reexport "import") = 1 := by
  have hname : ([bookmarksRecord].map Record.name).Nodup := List.pairwise_singleton _ _
  have hnames : ∀ s ∈ [bookmarksRecord], NamesFunctions s := by
    intro s hs
    obtain rfl := List.mem_singleton.mp hs
    exact List.forall_mem_cons.mpr ⟨⟨"import", rfl, by decide⟩,
      List.forall_mem_singleton.mpr ⟨"get", rfl, by decide⟩⟩
  have hbuild : Table.build [bookmarksRecord] (.listed []) = .ok ⟨[bookmarksRecord], hname⟩ := by
    cbv
  have hlines : (functionsLines ⟨"bookmarks", ⟨[bookmarksRecord], hname⟩⟩ bookmarksRecord).result =
      .ok bookmarksLines := by cbv
  have hmem : bookmarksRecord ∈ [bookmarksRecord] := List.mem_singleton_self _
  obtain ⟨hunreserved, hapart, hcount⟩ := functionsLines_reserved hnames hbuild hmem hlines
  exact ⟨hname, hnames, hbuild, hmem, hlines, hunreserved, hapart, hcount "import" (by decide)⟩

/-- Two records whose functions differ in their parameters only. -/
def importRecords : List Record :=
  [{ name := "bookmarks", functions := [procedure "import" []] },
   { name := "bookmarks", functions := [procedure "import" [⟨.str "path", ⟨{}, .boolean⟩⟩]] }]

/-- What they say together: two functions of one name. -/
def importRecord : Record where
  name := "bookmarks"
  functions := [procedure "import" [⟨.str "path", ⟨{}, .boolean⟩⟩], procedure "import" []]

/-- Two functions of one name export it twice. -/
theorem functionsLines_exports_twice :
    ¬ ∀ (rs : List Record) (ignored : Table.Ignored) (t : Table),
      (∀ s ∈ rs, NamesFunctions s ∧ NamesParameters s) → Table.build rs ignored = .ok t →
      ∀ r ∈ t.records, ∀ lines, (functionsLines ⟨r.name, t⟩ r).result = .ok lines →
      ∀ word, Reserved.isReserved word = true → HasFunction r word →
        lines.count (reexport word) = 1 := by
  intro h
  have hname : ([importRecord].map Record.name).Nodup := List.pairwise_singleton _ _
  have himport : ∀ parameters, NamesFunctions
      { name := "bookmarks", functions := [procedure "import" parameters] } := fun _ =>
    List.forall_mem_singleton.mpr ⟨"import", rfl, by decide⟩
  have hnames : ∀ s ∈ importRecords, NamesFunctions s ∧ NamesParameters s := by
    refine List.forall_mem_cons.mpr ⟨⟨himport _, ?_⟩,
      List.forall_mem_singleton.mpr ⟨himport _, ?_⟩⟩
    · exact List.forall_mem_singleton.mpr fun p hp => absurd hp List.not_mem_nil
    · exact List.forall_mem_singleton.mpr
        (List.forall_mem_singleton.mpr ⟨"path", rfl, by decide⟩)
  have hbuild : Table.build importRecords (.listed []) = .ok ⟨[importRecord], hname⟩ := by cbv
  have hlines : (functionsLines ⟨"bookmarks", ⟨[importRecord], hname⟩⟩ importRecord).result =
      .ok ["  function _import(path: boolean): void;", reexport "import",
        "  function _import(): void;", reexport "import"] := by cbv
  have hfunction : HasFunction importRecord "import" :=
    ⟨procedure "import" [], List.mem_cons_of_mem _ (List.mem_singleton_self _), rfl⟩
  -- the export would have to be there once, and it is there twice
  have honce := h _ _ _ hnames hbuild importRecord (List.mem_singleton_self _) _ hlines "import"
    (by decide) hfunction
  exact absurd honce (by decide)

end Declaration

end Typings
