import Typings.Declaration.File

/-!
# The names that a block declares

Which types a block declares can be told from its lines alone: an interface or an alias is
the only thing that starts behind two spaces with a letter `i` or `t`. All other lines among
those of the types are comments, which continue with a slash or a third space, members of
interfaces, which are indented further, or braces.

So the lines of all types declare the name of every type that is written out, and, as long
as no name holds an equals sign, no other.

The third character of a line is all that has to be looked at. A line that is not a declaration
has a space, a slash or a brace there (`IsInner`), and each function that makes lines has a lemma
that says so of all of them. One direction needs nothing about names. The other one reads a name
back from its line, up to the first equals sign, and that is where the condition on names is used
(`Declares.unique`).
-/

namespace Typings

namespace Declaration

open Schema (Node Property Callable Record)

/-- The line declares a type of this name, as an interface or as an alias. -/
def Declares (name line : String) : Prop :=
  line = "  interface " ++ name ++ " \x7b" ∨
    ∃ type, line = "  type " ++ name ++ " = " ++ type ++ ";"

/-- The line starts with `indent`. -/
def Indented (indent line : String) : Prop := indent.toList <+: line.toList

/-- The third character of the line is none that a declaration of a type could have. -/
def IsInner (line : String) : Prop := ∃ c ∈ [' ', '/', '\x7d'], [' ', ' ', c] <+: line.toList

theorem indented_append (indent s : String) : Indented indent (indent ++ s) := by
  rw [Indented, String.toList_append]
  exact List.prefix_append _ _

theorem isInner_of_indented {line : String} (h : Indented "    " line) : IsInner line := by
  refine ⟨' ', by simp, List.IsPrefix.trans ?_ h⟩
  exact ⟨[' '], rfl⟩

theorem not_declares_of_isInner {name line : String} (h : IsInner line) : ¬ Declares name line := by
  obtain ⟨c, hc, hline⟩ := h
  rintro (rfl | ⟨type, rfl⟩)
  all_goals
    simp only [String.toList_append, List.cons_prefix_cons, String.reduceToList,
      List.cons_append, true_and] at hline
    obtain ⟨rfl, -⟩ := hline
    exact absurd hc (by decide)

/-- A name without an equals sign ends in front of the first one. -/
theorem takeWhile_name {name : List Char} (h : '=' ∉ name) (s : List Char) :
    (name ++ ' ' :: '=' :: s).takeWhile (· ≠ '=') = name ++ [' '] := by
  have hname : ∀ c ∈ name, decide (c ≠ '=') = true :=
    fun c hc => decide_eq_true (fun he => h (he ▸ hc))
  rw [List.takeWhile_append_of_pos hname]
  simp

/-- **A line declares one name only**, among names without an equals sign. -/
theorem Declares.unique {a b line : String} (ha : '=' ∉ a.toList) (hb : '=' ∉ b.toList)
    (h : Declares a line) (h' : Declares b line) : a = b := by
  -- the third character tells the two kinds of declarations apart
  rcases h with rfl | ⟨s, rfl⟩ <;> rcases h' with h' | ⟨t, h'⟩ <;>
    replace h' := congrArg String.toList h' <;>
    simp only [String.toList_append, String.reduceToList, List.cons_append, List.nil_append,
      List.append_assoc, List.cons.injEq, true_and, Char.reduceEq, false_and] at h'
  · exact String.toList_inj.mp (List.append_cancel_right h')
  · have htake := congrArg (List.takeWhile (· ≠ '=')) h'
    rw [takeWhile_name ha, takeWhile_name hb] at htake
    exact String.toList_inj.mp (List.append_cancel_right htake)

/-! ## Lines that declare nothing -/

/-- Trimming leaves what stands in front of a character that is not blank. -/
theorem prefix_trimRight {s : List Char} {c : Char} (hc : Text.isBlank c = false)
    (a : List Char) : a ++ [c] <+: Text.trimRight (a ++ c :: s) := by
  rw [Text.trimRight, List.reverse_append, List.reverse_cons, List.append_assoc,
    List.dropWhile_append]
  split
  · -- all of the rest is blank, and goes
    simp [hc]
  · rw [List.reverse_append, List.reverse_append, List.reverse_reverse]
    exact List.prefix_append _ _

/-- The lines of a comment block are indented, and continue with a slash or a space. -/
theorem mem_block {indent line : String} {ls : List (List Char)}
    (h : line ∈ DocComment.block indent ls) :
    ∃ c ∈ [' ', '/', '\x7d'], indent.toList ++ [c] <+: line.toList := by
  unfold DocComment.block at h
  split at h
  · exact absurd h (by simp)
  · simp only [List.mem_append, List.mem_singleton, List.mem_map] at h
    -- the line that opens the block, one inside of it, and the one that ends it
    rcases h with (rfl | ⟨l, -, rfl⟩) | rfl
    · refine ⟨'/', by simp, ⟨['*', '*'], ?_⟩⟩
      simp
    · refine ⟨' ', by simp, ?_⟩
      have hstar := @prefix_trimRight (' ' :: l) '*' (by decide) (indent.toList ++ [' '])
      rw [List.append_assoc] at hstar
      rw [String.toList_ofList]
      refine List.IsPrefix.trans (List.prefix_append _ ['*']) ?_
      simpa using hstar
    · refine ⟨' ', by simp, ⟨['*', '/'], ?_⟩⟩
      simp

/-- So are those of a rendered one. -/
theorem mem_render {paragraphs : List Json} {indent line : String} {ls : List String}
    (h : DocComment.render paragraphs indent = .ok ls) (hl : line ∈ ls) :
    ∃ c ∈ [' ', '/', '\x7d'], indent.toList ++ [c] <+: line.toList := by
  unfold DocComment.render at h
  cases hb : DocComment.bodyLines paragraphs with
  | error e => rw [hb] at h; simp [Functor.map, Except.map] at h
  | ok body =>
    rw [hb] at h
    simp only [Functor.map, Except.map, Except.ok.injEq] at h
    exact mem_block (h ▸ hl)

theorem indented_render {paragraphs : List Json} {indent line : String} {ls : List String}
    (h : DocComment.render paragraphs indent = .ok ls) (hl : line ∈ ls) : Indented indent line := by
  obtain ⟨c, -, hline⟩ := mem_render h hl
  exact List.IsPrefix.trans (List.prefix_append _ _) hline

end Declaration

namespace Signature

open Declaration (Indented indented_append indented_render)

/-- An overload starts with the indent of its style. -/
theorem indented_renderOne {style : Style} {name : Json} {returns : Expression}
    {inputs : List Input} {line : String}
    (h : (renderOne style name returns inputs).result = .ok line) : Indented style.indent line := by
  simp only [renderOne, Outcome.bind_result_eq_ok, Outcome.pure_result_eq_ok] at h
  obtain ⟨arguments, -, head, -, rfl⟩ := h
  rw [String.append_assoc]
  exact indented_append _ _

theorem indented_renderEach {style : Style} {name : Json} {returns : Expression}
    {overloads : List (List Input)} {ls : List String}
    (h : (renderEach style name returns overloads).result = .ok ls) :
    ∀ line ∈ ls, Indented style.indent line := by
  induction overloads generalizing ls with
  | nil =>
    rw [renderEach, Outcome.pure_result_eq_ok] at h
    subst h
    simp
  | cons inputs rest ih =>
    simp only [renderEach, Outcome.bind_result_eq_ok, Outcome.pure_result_eq_ok] at h
    obtain ⟨line, hline, lines, hlines, rfl⟩ := h
    exact List.forall_mem_cons.mpr ⟨indented_renderOne hline, ih hlines⟩

/-- All lines of a function are indented as its style says. -/
theorem indented_lines {style : Style} {current : String} {s : Signature} {ls : List String}
    (h : (s.lines style current).result = .ok ls) : ∀ line ∈ ls, Indented style.indent line := by
  simp only [lines, Outcome.bind_result_eq_ok, Outcome.pure_result_eq_ok] at h
  obtain ⟨shape, -, renamed, -, doc, hdoc, overloads, hoverloads, rfl⟩ := h
  intro line hline
  rcases List.mem_append.mp hline with hline | hline
  · rcases List.mem_append.mp hline with hline | hline
    · -- the comment block, if the style wants one
      unfold comment at hdoc
      split at hdoc
      · exact indented_render hdoc hline
      · simp only [Outcome.lift_result, Except.ok.injEq] at hdoc
        exact absurd hline (by simp [← hdoc])
    · exact indented_renderEach hoverloads line hline
  · -- the line that exports a renamed function
    split at hline
    · rw [List.mem_singleton.mp hline]
      simp only [exportLine, String.append_assoc]
      exact indented_append _ _
    · exact absurd hline (by simp)

end Signature

namespace Declaration

open Schema (Node Property Callable Record)

/-! ## The lines of a type -/

/-- What is collected is what the single declarations consist of. -/
theorem mem_collect {α : Type} {f : α → Outcome (List String)} {as : List α} {ls : List String}
    (h : (collect f as).result = .ok ls) (line : String) :
    line ∈ ls ↔ ∃ a ∈ as, ∃ la, (f a).result = .ok la ∧ line ∈ la := by
  induction as generalizing ls with
  | nil =>
    rw [collect, Outcome.pure_result_eq_ok] at h
    simp [← h]
  | cons a as ih =>
    simp only [collect, Outcome.bind_result_eq_ok, Outcome.pure_result_eq_ok] at h
    obtain ⟨la, hla, rest, hrest, rfl⟩ := h
    simp [List.mem_append, ih hrest, hla]

/-- Lines can only be collected if every single declaration yields some. -/
theorem exists_of_collect {α : Type} {f : α → Outcome (List String)} {as : List α}
    {ls : List String} (h : (collect f as).result = .ok ls) :
    ∀ a ∈ as, ∃ la, (f a).result = .ok la := by
  induction as generalizing ls with
  | nil => simp
  | cons a as ih =>
    simp only [collect, Outcome.bind_result_eq_ok, Outcome.pure_result_eq_ok] at h
    obtain ⟨la, hla, rest, hrest, -⟩ := h
    exact List.forall_mem_cons.mpr ⟨⟨la, hla⟩, ih hrest⟩

/-- What is true of the lines of every declaration is true of all of them together. -/
theorem indented_collect {α : Type} {f : α → Outcome (List String)} {as : List α}
    {ls : List String} {indent : String}
    (hf : ∀ a la, (f a).result = .ok la → ∀ line ∈ la, Indented indent line)
    (h : (collect f as).result = .ok ls) : ∀ line ∈ ls, Indented indent line := by
  intro line hline
  obtain ⟨a, -, la, hla, hmem⟩ := (mem_collect h line).mp hline
  exact hf a la hla line hmem

theorem indented_propertyLines {scope : Scope} (p : Property) (ls : List String)
    (h : (propertyLines scope p).result = .ok ls) : ∀ line ∈ ls, Indented "    " line := by
  simp only [propertyLines, Outcome.bind_result_eq_ok, Outcome.pure_result_eq_ok] at h
  obtain ⟨doc, hdoc, type, -, rfl⟩ := h
  intro line hline
  rcases List.mem_append.mp hline with hline | hline
  · exact indented_render hdoc hline
  · rw [List.mem_singleton.mp hline, String.append_assoc]
    exact indented_append _ _

theorem indented_eventLines {scope : Scope} {indent : String}
    {target : Json → Except Fault String} (e : Callable) (ls : List String)
    (h : (eventLines scope indent target e).result = .ok ls) :
    ∀ line ∈ ls, Indented indent line := by
  simp only [eventLines, Outcome.bind_result_eq_ok, Outcome.pure_result_eq_ok] at h
  obtain ⟨doc, hdoc, listener, -, name, -, rfl⟩ := h
  intro line hline
  rcases List.mem_append.mp hline with hline | hline
  · exact indented_render hdoc hline
  · simp only [List.mem_singleton, String.append_assoc] at hline
    rw [hline]
    exact indented_append _ _

theorem indented_indexLines {scope : Scope} {additional : Option Node} {ls : List String}
    (h : (indexLines scope additional).result = .ok ls) : ∀ line ∈ ls, Indented "    " line := by
  cases additional with
  | none =>
    rw [indexLines, Outcome.pure_result_eq_ok] at h
    simp [← h]
  | some n =>
    simp only [indexLines, Outcome.bind_result_eq_ok, Outcome.pure_result_eq_ok] at h
    obtain ⟨type, -, rfl⟩ := h
    intro line hline
    rw [List.mem_singleton.mp hline, String.append_assoc]
    exact indented_append _ _

/-- The members of an object type are indented further than a declaration. -/
theorem indented_memberLines {scope : Scope} {n : Node} {ls : List String}
    (h : (memberLines scope n).result = .ok ls) : ∀ line ∈ ls, Indented "    " line := by
  unfold memberLines at h
  split at h
  · simp only [Outcome.bind_result_eq_ok, Outcome.pure_result_eq_ok] at h
    obtain ⟨ps, hps, index, hindex, fs, hfs, es, hes, rfl⟩ := h
    intro line hline
    -- a line of a property, of the index member, of a function or of an event
    rcases List.mem_append.mp hline with hline | hline
    · rcases List.mem_append.mp hline with hline | hline
      · rcases List.mem_append.mp hline with hline | hline
        · exact indented_collect indented_propertyLines hps line hline
        · exact indented_indexLines hindex line hline
      · exact indented_collect (fun _ _ => Signature.indented_lines) hfs line hline
    · exact indented_collect indented_eventLines hes line hline
  · rw [Outcome.pure_result_eq_ok] at h
    simp [← h]

/-- The lines declare just this one name. -/
structure DeclareOnly (name : String) (ls : List String) : Prop where
  declared : ∃ line ∈ ls, Declares name line
  others : ∀ line ∈ ls, IsInner line ∨ Declares name line

/-- Comments in front of a declaration declare nothing more. -/
theorem DeclareOnly.append {name : String} {doc ls : List String}
    (hdoc : ∀ line ∈ doc, IsInner line) (h : DeclareOnly name ls) :
    DeclareOnly name (doc ++ ls) where
  declared := by
    obtain ⟨line, hline, hdecl⟩ := h.declared
    exact ⟨line, List.mem_append_right doc hline, hdecl⟩
  others := by
    intro line hline
    rcases List.mem_append.mp hline with hline | hline
    · exact Or.inl (hdoc line hline)
    · exact h.others line hline

theorem isInner_nodeComment {n : Node} {ls : List String}
    (h : nodeComment n "  " = .ok ls) : ∀ line ∈ ls, IsInner line :=
  fun _ hline => mem_render h hline

theorem declareOnly_interfaceLines {scope : Scope} {name : String} {n : Node} {ls : List String}
    (h : (interfaceLines scope name n).result = .ok ls) : DeclareOnly name ls := by
  simp only [interfaceLines, Outcome.bind_result_eq_ok, Outcome.pure_result_eq_ok] at h
  obtain ⟨members, hmembers, rfl⟩ := h
  refine ⟨⟨_, by simp, Or.inl rfl⟩, fun line hline => ?_⟩
  simp only [List.mem_append, List.mem_singleton] at hline
  rcases hline with (rfl | hline) | rfl
  · exact Or.inr (Or.inl rfl)
  · exact Or.inl (isInner_of_indented (indented_memberLines hmembers line hline))
  · exact Or.inl ⟨'\x7d', by simp, ⟨[], rfl⟩⟩

theorem declareOnly_namedTypeLines {scope : Scope} {n : Node} {ls : List String}
    (h : (namedTypeLines scope n).result = .ok ls) : DeclareOnly n.info.id.display ls := by
  simp only [namedTypeLines, Outcome.bind_result_eq_ok] at h
  obtain ⟨doc, hdoc, h⟩ := h
  -- an interface for an object type, and an alias for any other
  split at h
  · simp only [Outcome.bind_result_eq_ok, Outcome.pure_result_eq_ok] at h
    obtain ⟨body, hbody, rfl⟩ := h
    exact (declareOnly_interfaceLines hbody).append (isInner_nodeComment hdoc)
  · simp only [Outcome.bind_result_eq_ok, Outcome.pure_result_eq_ok] at h
    obtain ⟨type, -, rfl⟩ := h
    refine DeclareOnly.append (isInner_nodeComment hdoc) ⟨⟨_, List.mem_singleton_self _, ?_⟩, ?_⟩
    · exact Or.inr ⟨type.toText, rfl⟩
    · intro line hline
      exact Or.inr (Or.inr ⟨type.toText, List.mem_singleton.mp hline⟩)

/-- The name under which a type of a record is written out. An extension of a type that
cannot be extended is not. -/
def writtenName? (r : Record) (n : Node) : Option String :=
  if n.info.id = .null then (extended? r n).map fun _ => n.info.extends?.display
  else some n.info.id.display

theorem declareOnly_typeLines {scope : Scope} {r : Record} {n : Node} {ls : List String}
    {name : String} (hname : writtenName? r n = some name)
    (h : (typeLines scope r n).result = .ok ls) : DeclareOnly name ls := by
  unfold writtenName? at hname
  unfold typeLines at h
  split at hname
  -- a type without a name of its own extends another one, and takes its name
  case isTrue hid =>
    rw [if_pos hid] at h
    obtain ⟨base, hbase, rfl⟩ := Option.map_eq_some_iff.mp hname
    simp only [extensionLines, hbase, Outcome.bind_result_eq_ok,
      Outcome.pure_result_eq_ok] at h
    obtain ⟨doc, hdoc, body, hbody, rfl⟩ := h
    exact (declareOnly_interfaceLines hbody).append (isInner_nodeComment hdoc)
  case isFalse hid =>
    rw [if_neg hid] at h
    exact Option.some.inj hname ▸ declareOnly_namedTypeLines h

/-- A type that is not written out leaves a comment. -/
theorem isInner_typeLines {scope : Scope} {r : Record} {n : Node} {ls : List String}
    (hname : writtenName? r n = none) (h : (typeLines scope r n).result = .ok ls) :
    ∀ line ∈ ls, IsInner line := by
  unfold writtenName? at hname
  unfold typeLines at h
  split at hname
  case isTrue hid =>
    rw [if_pos hid] at h
    simp only [extensionLines, Option.map_eq_none_iff.mp hname, Outcome.pure_result_eq_ok] at h
    subst h
    intro line hline
    -- the note that something is skipped
    rw [List.mem_singleton.mp hline]
    exact ⟨'/', by simp, ⟨_, by simp; rfl⟩⟩
  case isFalse hid => exact absurd hname (by simp)

/-! ## The lines of all types -/

/-- Some type of the record that is supported is written out under this name. -/
def Introduces (r : Record) (name : String) : Prop :=
  ∃ n ∈ r.types, n.info.unsupported = false ∧ writtenName? r n = some name

/-- **Every type that is written out is declared.** -/
theorem declares_of_introduces {scope : Scope} {r : Record} {name : String} {ls : List String}
    (hr : Introduces r name) (h : (typesLines scope r).result = .ok ls) :
    ∃ line ∈ ls, Declares name line := by
  obtain ⟨n, hn, hsupported, hname⟩ := hr
  have hkept : n ∈ r.types.filter fun n => !n.info.unsupported :=
    List.mem_filter.mpr ⟨hn, by simp [hsupported]⟩
  obtain ⟨la, hla⟩ := exists_of_collect h n hkept
  obtain ⟨line, hline, hdecl⟩ := (declareOnly_typeLines hname hla).declared
  exact ⟨line, (mem_collect h line).mpr ⟨n, hkept, la, hla, hline⟩, hdecl⟩

/-- **Nothing else is declared**, if no name holds an equals sign. -/
theorem introduces_of_declares {scope : Scope} {r : Record} {name line : String}
    {ls : List String} (hnames : ∀ n ∈ r.types, ∀ id, writtenName? r n = some id → '=' ∉ id.toList)
    (hname : '=' ∉ name.toList) (h : (typesLines scope r).result = .ok ls) (hline : line ∈ ls)
    (hdecl : Declares name line) : Introduces r name := by
  obtain ⟨n, hn, la, hla, hmem⟩ := (mem_collect h line).mp hline
  obtain ⟨hn, hsupported⟩ := List.mem_filter.mp hn
  cases hid : writtenName? r n with
  | none => exact absurd hdecl (not_declares_of_isInner (isInner_typeLines hid hla line hmem))
  | some id =>
    rcases (declareOnly_typeLines hid hla).others line hmem with hinner | hdecl'
    · exact absurd hdecl (not_declares_of_isInner hinner)
    -- a line declares one name only, if names hold no equals sign
    · have heq : id = name := hdecl'.unique (hnames n hn id hid) hname hdecl
      exact ⟨n, hn, by simpa using hsupported, heq ▸ hid⟩

end Declaration

end Typings
