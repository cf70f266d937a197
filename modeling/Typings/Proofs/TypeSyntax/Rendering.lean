import Mathlib.Data.List.Forall2
import Typings.Expression.OfNode
import Typings.Proofs.TypeSyntax.Grammar

/-!
# Texts that mean what their tree says

The program writes types as texts and decides by their looks where parentheses are needed: a
text with a bar between blanks may be a union, one with an arrow's sign may be a function
type, and one that starts with a brace holds together however many arrows it has inside.
These are guesses. They may see a bar inside a string literal, but they never miss one that
counts, and `Writes` says just that: a text that is no operand has the sign by which it is
known.

All ways of putting types together keep this up: arrays, options, unions and lists of
parameters or members.
-/

namespace Typings.TypeSyntax

/-- The text reads as a union. -/
def WritesUnion (s : String) (t : Tree) : Prop := ∃ xs, Reads s xs ∧ Derives .union xs t

/-- The text reads as a type, and shows it unless it is an operand. -/
inductive Writes (s : String) (t : Tree) : Prop where
  | operand {xs : List Token} (hs : Reads s xs) (h : Derives .operand xs t)
  | union {xs : List Token} (hs : Reads s xs) (h : Derives .union xs t)
    (hbar : Text.mentions " | " s = true)
  | arrow {xs : List Token} (hs : Reads s xs) (h : Derives .type xs t)
    (harrow : Text.mentions "=>" s = true) (hbrace : ['\x7b'].isPrefixOf s.toList = false)

/-- What a text writes is a type. -/
theorem Writes.derives {s : String} {t : Tree} (h : Writes s t) :
    ∃ xs, Reads s xs ∧ Derives .type xs t := by
  cases h with
  | operand hs h => exact ⟨_, hs, .union (.operand h)⟩
  | union hs h => exact ⟨_, hs, .union h⟩
  | arrow hs h => exact ⟨_, hs, h⟩

/-- **A text writes one union only.** -/
theorem WritesUnion.unique {s : String} {t u : Tree} (ht : WritesUnion s t)
    (hu : WritesUnion s u) : t = u := by
  obtain ⟨xs, hxs, ht⟩ := ht
  obtain ⟨ys, hys, hu⟩ := hu
  have heq : xs = ys := hxs.tokens_eq.symm.trans hys.tokens_eq
  subst heq
  exact (Derives.union ht).unique (.union hu)

/-! ## Leaves, parentheses and arrays -/

theorem writes_leaf {s : String} {x : Token} (hs : Reads s [x]) (h : IsLeaf x) :
    Writes s (.leaf x) := .operand hs (.primary (.leaf h))

theorem writes_literal (s : Scalar) : Writes s.literal (.leaf (literalToken s)) :=
  writes_leaf (reads_literal s) (.literal s)

theorem closes_parentheses {s : String} {xs : List Token} (h : Reads s xs) :
    Closes ("(" ++ s ++ ")") (.sign '(' :: (xs ++ [.sign ')'])) := by
  have hopen : Closes "(" [.sign '('] := fun _ => rfl
  have hclose : Closes ")" [.sign ')'] := fun _ => rfl
  exact (hopen.append_reads h).append_closes (by decide) rfl hclose

/-- Parentheses make an operand of any type. -/
theorem Writes.parentheses {s : String} {t : Tree} (h : Writes s t) :
    ∃ xs, Closes ("(" ++ s ++ ")") xs ∧ Derives .operand xs t := by
  obtain ⟨xs, hs, h⟩ := h.derives
  exact ⟨_, closes_parentheses hs, .primary (.parentheses h)⟩

theorem reads_brackets {s : String} {xs : List Token} (h : Reads s xs) :
    Reads (s ++ "[]") (xs ++ [.sign '[', .sign ']']) := by
  have hbrackets : Closes "[]" [.sign '[', .sign ']'] := fun _ => rfl
  exact (h.append_closes (by decide) rfl hbrackets).reads

/-- **An array's text is an array.** -/
theorem Writes.array {s : String} {t : Tree} (h : Writes s t) :
    Writes (Expression.array (.text s)).toText (.array t) := by
  unfold Expression.array
  split
  case isTrue =>
    obtain ⟨xs, hxs, hderives⟩ := h.parentheses
    have htext : "(" ++ s ++ ")[]" = "(" ++ s ++ ")" ++ "[]" := by
      rw [show ")[]" = ")" ++ "[]" from rfl, ← String.append_assoc]
    rw [Expression.toText_text, Expression.toText_text, htext]
    exact .operand (reads_brackets hxs.reads) (.array hderives)
  case isFalse hsigns =>
    -- without a sign that shows it to be more, it is an operand
    cases h with
    | operand hs h => exact .operand (reads_brackets hs) (.array h)
    | union _ _ hbar => exact absurd (by simp [Expression.mentions, hbar]) hsigns
    | arrow _ _ harrow => exact absurd (by simp [Expression.mentions, harrow]) hsigns

/-! ## Options and unions -/

/-- **An option's text is a union at most**, and still the same type. -/
theorem Writes.parenthesizeText {s : String} {t : Tree} (h : Writes s t) :
    Writes (Expression.parenthesizeText s) t ∧
      WritesUnion (Expression.parenthesizeText s) t := by
  unfold Expression.parenthesizeText
  split
  case isTrue =>
    obtain ⟨xs, hxs, hderives⟩ := h.parentheses
    exact ⟨.operand hxs.reads hderives, xs, hxs.reads, .operand hderives⟩
  case isFalse hsigns =>
    refine ⟨h, ?_⟩
    -- a function type would have got parentheses: it does not start with a brace
    cases h with
    | operand hs h => exact ⟨_, hs, .operand h⟩
    | union hs h => exact ⟨_, hs, h⟩
    | arrow _ _ harrow hbrace => exact absurd (by simp [harrow, hbrace]) hsigns

theorem reads_bar {s u : String} {xs ys : List Token} (hs : Reads s xs) (hu : Reads u ys) :
    Reads (s ++ " | " ++ u) (xs ++ .sign '|' :: ys) := by
  have hbar : Closes " | " [.sign '|'] := fun _ => rfl
  have hreads := (hs.append_closes (by decide) rfl hbar).append_reads hu
  rwa [List.append_assoc] at hreads

theorem mentions_append {word s : String} (a b : String) (h : s = a ++ word ++ b) :
    Text.mentions word s = true := by
  refine Text.occurs_iff.mpr ⟨a.toList, b.toList, ?_⟩
  rw [h, String.toList_append, String.toList_append]

/-- Unions with bars between them are a union. -/
theorem writesUnion_intercalate {ss : List String} {ts : List Tree}
    (h : List.Forall₂ WritesUnion ss ts) (hne : ss ≠ []) (hflat : ∀ t ∈ ts, t.IsFlat) :
    WritesUnion (" | ".intercalate ss) (.union ts) := by
  induction h with
  | nil => exact absurd rfl hne
  | @cons s t ss ts hst hrest ih =>
    obtain ⟨ht, hts⟩ := List.forall_mem_cons.mp hflat
    -- a bar stands behind every option but the last
    cases hrest with
    | nil =>
      rw [String.intercalate_singleton, show Tree.union [t] = t from ht]
      exact hst
    | @cons s' t' ss ts _ _ =>
      obtain ⟨xs, hxs, hder⟩ := hst
      obtain ⟨ys, hys, hders⟩ := ih (List.cons_ne_nil _ _) hts
      rw [String.intercalate_cons_cons, ← Tree.join_union (List.cons_ne_nil _ _)]
      exact ⟨_, reads_bar hxs hys, hder.bar_union hders⟩

/-- **Options with bars between them write their union.** -/
theorem writes_union {ss : List String} {ts : List Tree}
    (h : List.Forall₂ (fun s t => Writes s t ∧ WritesUnion s t) ss ts) (hne : ss ≠ [])
    (hflat : ∀ t ∈ ts, t.IsFlat) : Writes (" | ".intercalate ss) (.union ts) := by
  have hunion := writesUnion_intercalate (h.imp fun _ _ h => h.2) hne hflat
  cases h with
  | nil => exact absurd rfl hne
  | @cons s t ss ts hst hrest =>
    -- a single option is written as it stands, and only more of them are a union
    cases hrest with
    | nil =>
      have ht : Tree.union [t] = t := hflat t List.mem_cons_self
      rw [String.intercalate_singleton, ht]
      exact hst.1
    | @cons s' t' ss ts _ _ =>
      obtain ⟨xs, hxs, hder⟩ := hunion
      exact .union hxs hder (mentions_append s _ (String.intercalate_cons_cons))

/-- Since a text writes one union only, texts of unions determine their trees. -/
theorem exists_eq_map {ss : List String} {ts : List Tree} (h : List.Forall₂ WritesUnion ss ts) :
    ∃ f : String → Tree, ts = ss.map f := by
  refine ⟨fun s => Classical.epsilon (WritesUnion s), ?_⟩
  induction h with
  | nil => rfl
  | @cons s t ss ts hst _ ih =>
    have hspec := Classical.epsilon_spec (p := WritesUnion s) ⟨t, hst⟩
    rw [List.map_cons, ← ih, hspec.unique hst]

/-- **Dropping the options whose texts come again drops nothing that is not there.** -/
theorem writes_distinct {ss : List String} {ts : List Tree}
    (h : List.Forall₂ (fun s t => Writes s t ∧ WritesUnion s t) ss ts) (hne : ss ≠ [])
    (hflat : ∀ t ∈ ts, t.IsFlat) : Writes (Expression.union ss) (.union ts) := by
  -- trees are a function of texts here, so dropping equal texts drops equal trees
  obtain ⟨f, rfl⟩ := exists_eq_map (h.imp fun _ _ h => h.2)
  have hpairs : ∀ s ∈ ss, Writes s (f s) ∧ WritesUnion s (f s) := by
    rw [List.forall₂_map_right_iff] at h
    exact List.forall₂_same.mp h
  have hunion : Tree.union ((Keyed.distinct some ss).map f) = .union (ss.map f) := by
    unfold Tree.union
    rw [List.flatMap_map, List.flatMap_map, Keyed.distinct_flatMap_some]
  unfold Expression.union
  rw [← hunion]
  refine writes_union ?_ (Keyed.distinct_ne_nil hne) (fun t ht => ?_)
  · rw [List.forall₂_map_right_iff]
    exact List.forall₂_same.mpr fun s hs => hpairs s (Keyed.mem_of_mem_distinct hs)
  · obtain ⟨s, hs, rfl⟩ := List.mem_map.mp ht
    exact hflat _ (List.mem_map_of_mem (Keyed.mem_of_mem_distinct hs))

/-! ## Lists of parameters and members -/

/-- What the program puts between two entries. -/
def ListKind.delimiter : ListKind → String
  | .parameters => ", "
  | .members => "; "

/-- The text reads as an entry of a list. -/
def WritesEntry (k : ListKind) (s : String) (l : Label) (t : Tree) : Prop :=
  k.Admits l ∧ ∃ xs, Reads s (l.tokens ++ .sign ':' :: xs) ∧ Derives .type xs t

/-- The texts read as the entries of a list. -/
inductive WritesFields (k : ListKind) : List String → Tree → Prop where
  | nil : WritesFields k [] .nil
  | cons {s : String} {ss : List String} {l : Label} {t u : Tree} (h : WritesEntry k s l t)
    (hrest : WritesFields k ss u) : WritesFields k (s :: ss) (.field l t u)

theorem reads_delimiter (k : ListKind) {s u : String} {xs ys : List Token} (hs : Reads s xs)
    (hu : Reads u ys) : Reads (s ++ k.delimiter ++ u) (xs ++ .sign k.separator :: ys) := by
  have hdelimiter : Closes k.delimiter [.sign k.separator] := by
    cases k <;> exact fun _ => rfl
  have hhead : k.delimiter.toList.head? = some k.separator := by cases k <;> rfl
  have hreads := (hs.append_closes (by cases k <;> decide) hhead hdelimiter).append_reads hu
  rwa [List.append_assoc] at hreads

theorem WritesFields.series {k : ListKind} {ss : List String} {t : Tree}
    (h : WritesFields k ss t) (hne : ss ≠ []) :
    ∃ xs, Reads (k.delimiter.intercalate ss) xs ∧ Derives (.series k) xs t := by
  induction h with
  | nil => exact absurd rfl hne
  | @cons s ss l t u hentry hrest ih =>
    obtain ⟨hl, xs, hs, ht⟩ := hentry
    -- a delimiter stands behind every entry but the last
    cases hrest with
    | nil =>
      rw [String.intercalate_singleton]
      exact ⟨_, hs, .last hl ht⟩
    | @cons s' ss _ _ _ _ _ =>
      obtain ⟨ys, hys, hu⟩ := ih (List.cons_ne_nil _ _)
      have hreads := reads_delimiter k hs hys
      rw [List.append_assoc] at hreads
      rw [String.intercalate_cons_cons]
      exact ⟨_, hreads, .more hl ht hu⟩

/-- **Entries with delimiters between them are a list.** -/
theorem WritesFields.fields {k : ListKind} {ss : List String} {t : Tree}
    (h : WritesFields k ss t) :
    ∃ xs, Reads (k.delimiter.intercalate ss) xs ∧ Derives (.fields k) xs t := by
  cases h with
  | nil => exact ⟨[], fun _ _ => rfl, .none⟩
  | cons hentry hrest =>
    obtain ⟨xs, hxs, ht⟩ := (WritesFields.cons hentry hrest).series (List.cons_ne_nil _ _)
    exact ⟨xs, hxs, .series ht⟩

/-- A named entry. -/
theorem writesEntry_named {k : ListKind} {x : Token} {optional : Bool} {name s : String}
    {t : Tree} (hl : k.Admits (.named x optional)) (hx : Reads name [x]) (h : Writes s t) :
    WritesEntry k (name ++ (if optional then "?" else "") ++ ": " ++ s) (.named x optional) t := by
  obtain ⟨xs, hs, hder⟩ := h.derives
  refine ⟨hl, xs, ?_, hder⟩
  -- the mark of an optional entry is a sign of its own, in front of the colon
  cases optional with
  | false =>
    have hcolon : Closes ": " [.sign ':'] := fun _ => rfl
    rw [if_neg (by decide), String.append_empty]
    exact (hx.append_closes (by decide) rfl hcolon).append_reads hs
  | true =>
    have hmark : Closes "?: " [.sign '?', .sign ':'] := fun _ => rfl
    have htext : name ++ "?" ++ ": " = name ++ "?: " := by rw [String.append_assoc]; rfl
    rw [if_pos rfl, htext]
    exact (hx.append_closes (by decide) rfl hmark).append_reads hs

theorem writesEntry_index {s : String} {t : Tree} (h : Writes s t) :
    WritesEntry .members ("[key: string]: " ++ s) .index t := by
  obtain ⟨xs, hs, hder⟩ := h.derives
  have hindex : Closes "[key: string]: " (Label.tokens .index ++ [.sign ':']) := fun _ => rfl
  have hreads := hindex.append_reads hs
  rw [List.append_assoc] at hreads
  exact ⟨.index, xs, hreads, hder⟩

/-- **The text of an object type is one.** -/
theorem writes_object {ms : List String} {m : Tree} (h : WritesFields .members ms m) :
    Writes (Expression.ofObject ms) (.object m) := by
  cases h with
  | nil =>
    have hempty : Closes "\x7b\x7d" [.sign '\x7b', .sign '\x7d'] := fun _ => rfl
    exact .operand hempty.reads (.primary (.object .none))
  | cons hentry hrest =>
    obtain ⟨xs, hxs, hder⟩ := (WritesFields.cons hentry hrest).fields
    have hopen : Closes "\x7b " [.sign '\x7b'] := fun _ => rfl
    have hclose : Closes " \x7d" [.sign '\x7d'] := fun _ => rfl
    have hreads := (hopen.append_reads hxs).append_closes (by decide) rfl hclose
    exact .operand hreads.reads (.primary (.object hder))

/-- **The text of a function type is one.** -/
theorem writes_arrow {ps : List String} {r : String} {p t : Tree}
    (hp : WritesFields .parameters ps p) (h : Writes r t) :
    Writes ("(" ++ ", ".intercalate ps ++ ") => " ++ r) (.arrow p t) := by
  obtain ⟨xs, hxs, hder⟩ := hp.fields
  obtain ⟨ys, hys, hresult⟩ := h.derives
  have hopen : Closes "(" [.sign '('] := fun _ => rfl
  have harrow : Closes ") => " [.sign ')', .arrow] := fun _ => rfl
  have hreads := ((hopen.append_reads hxs).append_closes (by decide) rfl harrow).append_reads hys
  rw [List.append_assoc] at hreads
  -- that it has an arrow in it and starts with a bracket is what parentheses depend on
  refine .arrow hreads (.arrow hder hresult) ?_ ?_
  · refine mentions_append ("(" ++ ", ".intercalate ps ++ ") ") (" " ++ r) ?_
    simp only [String.append_assoc]
    rfl
  · simp only [String.toList_append]
    rfl

end Typings.TypeSyntax
