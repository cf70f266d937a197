import Mathlib.Data.List.Forall2
import Typings.Expression.OfNode
import Typings.Proofs.Scanning.Decoding
import Typings.Schema.OfJson

/-!
# Members of enumerations

A text type that lists its members compiles to a union of literals, one for each member, with bars
between them. The members can be read back from that text. A literal ends at its own closing quote,
whatever is inside it, a bar or a quote that is escaped, so there is only one way to divide the
text into literals; and each of them stands for its member.

So types with different members have different texts, and none of them is the text for a type that
lists no members.
-/

namespace Typings.Schema

open Json (Fields field field? hasField ofLiteral?)

/-! ## What lists members -/

/-- A member of an enumeration is given by a text, or by an object with a text for its name. -/
inductive NamesMember : Json → String → Prop
  | text (name : String) : NamesMember (.str name) name
  | object {fields : Fields} {name : String} (h : field? "name" fields = some (.str name)) :
    NamesMember (.obj fields) name

/-- Fields of a text type that lists its members. -/
structure Enumerates (fields : Fields) (names : List String) : Prop where
  /-- A reference would be told before a text type. -/
  noReference : hasField "$ref" fields = false
  word : typeWord fields = some "string" ∨ typeWord fields = some "url"
  members : ∃ vs, field "enum" fields = .arr vs ∧ List.Forall₂ NamesMember vs names

theorem enumMembers_of_namesMember {vs : List Json} {names : List String}
    (h : List.Forall₂ NamesMember vs names) : enumMembers vs = .ok names := by
  induction h with
  | nil => rfl
  | @cons v name vs names hv _ ih =>
    cases hv with
    | text => rw [enumMembers, ih] <;> simp
    | object hname => rw [enumMembers, hname, ih]; rfl

/-- Members that are listed are read, both as texts and as objects, and keep their order. -/
theorem ofJson_of_enumerates {fields : Fields} {names : List String}
    (h : Enumerates fields names) :
    Node.ofJson (.obj fields) = .ok ⟨Info.ofFields fields, .string (some names)⟩ := by
  obtain ⟨vs, henum, hvs⟩ := h.members
  have henumOf : enumOf fields = .ok (some names) := by
    rw [enumOf, henum]
    simp only [enumMembers_of_namesMember hvs]
    rfl
  rw [Node.ofJson]
  rcases h.word with hword | hword <;> simp [h.noReference, hword, henumOf]

/-! ## Dividing a union into literals -/

/-- A text that is made of literals, with bars between them. -/
def IsUnionOf (literals : List String) (t : String) : Prop :=
  (∀ l ∈ literals, (ofLiteral? l).isSome) ∧ " | ".intercalate literals = t

/-- Literals in a row, each with a bar before it. -/
def row (literals : List String) : List Char :=
  literals.flatMap fun l => " | ".toList ++ l.toList

theorem row_eq_intercalate {ls : List String} (h : ls ≠ []) :
    row ls = " | ".toList ++ (" | ".intercalate ls).toList := by
  induction ls with
  | nil => exact absurd rfl h
  | cons l ls ih =>
    cases ls with
    | nil => simp [row, String.intercalate_singleton]
    | cons m ls =>
      have hrow : row (l :: m :: ls) = " | ".toList ++ l.toList ++ row (m :: ls) := rfl
      rw [hrow, ih (List.cons_ne_nil m ls), String.intercalate_cons_cons, String.toList_append,
        String.toList_append]
      simp only [List.append_assoc]

/-- Rows of literals are the same only if they have the same literals: the first ones are, since
a text starts with one literal at most, and then so are the rows behind them. -/
theorem eq_of_row_eq {ls ms : List String} (hl : ∀ l ∈ ls, (ofLiteral? l).isSome)
    (hm : ∀ m ∈ ms, (ofLiteral? m).isSome) (h : row ls = row ms) : ls = ms := by
  induction ls generalizing ms with
  | nil =>
    cases ms with
    | nil => rfl
    | cons m ms => simp [row] at h
  | cons l ls ih =>
    cases ms with
    | nil => simp [row] at h
    | cons m ms =>
      obtain ⟨hl, hls⟩ := List.forall_mem_cons.mp hl
      obtain ⟨hm, hms⟩ := List.forall_mem_cons.mp hm
      obtain ⟨t, ht⟩ := Option.isSome_iff_exists.mp hl
      obtain ⟨u, hu⟩ := Option.isSome_iff_exists.mp hm
      have hbehind : l.toList ++ row ls = m.toList ++ row ms := by
        simpa [row, List.append_assoc] using h
      -- a literal ends where it ends, whatever is behind it
      obtain ⟨rfl, hrest⟩ := Json.eq_of_literals ht hu hbehind
      rw [ih hls hms hrest]

/-- A union starts with the quote that opens its first literal. -/
theorem exists_quote_intercalate {ls : List String} (hne : ls ≠ [])
    (hl : ∀ l ∈ ls, (ofLiteral? l).isSome) : ∃ s, (" | ".intercalate ls).toList = '"' :: s := by
  obtain ⟨l, ls, rfl⟩ := List.exists_cons_of_ne_nil hne
  obtain ⟨t, ht⟩ := Option.isSome_iff_exists.mp (hl l List.mem_cons_self)
  obtain ⟨body, -, hbody⟩ := Json.literalBody_of_ofLiteral? ht
  have hrow := row_eq_intercalate hne
  have htext : " | ".toList ++ ('"' :: (body ++ ['"']) ++ row ls) =
      " | ".toList ++ (" | ".intercalate (l :: ls)).toList := by
    rw [← hrow, ← hbody]
    simp [row]
  exact ⟨_, (List.append_cancel_left htext).symm⟩

/-- **There is one way at most to divide a text into literals with bars between them.** -/
theorem IsUnionOf.unique {ls ms : List String} {t : String} (hl : IsUnionOf ls t)
    (hm : IsUnionOf ms t) : ls = ms := by
  obtain ⟨hls, rfl⟩ := hl
  obtain ⟨hms, htext⟩ := hm
  -- no literals make no text, and any literal starts with a quote
  by_cases hl : ls = []
  · by_cases hm : ms = []
    · rw [hl, hm]
    · obtain ⟨s, hs⟩ := exists_quote_intercalate hm hms
      rw [htext, hl] at hs
      cases hs
  · by_cases hm : ms = []
    · obtain ⟨s, hs⟩ := exists_quote_intercalate hl hls
      rw [← htext, hm] at hs
      cases hs
    · refine eq_of_row_eq hls hms ?_
      rw [row_eq_intercalate hl, row_eq_intercalate hm, htext]

/-! ## The text of an enumeration -/

/-- A text from which members are read back, and which no type without members has. -/
structure SpellsOut (t : String) (names : List String) : Prop where
  /-- It is divided into literals in one way, and these stand for the members in their order. -/
  literals : ∃ ls, (∀ ms, IsUnionOf ms t ↔ ms = ls) ∧ ls.map ofLiteral? = names.map some
  restricts : t ≠ "string"

theorem SpellsOut.unique {t : String} {names others : List String} (h : SpellsOut t names)
    (h' : SpellsOut t others) : names = others := by
  obtain ⟨ls, hls, hnames⟩ := h.literals
  obtain ⟨ms, hms, hothers⟩ := h'.literals
  have hsame : ls = ms := (hms ls).mp ((hls ls).mpr rfl)
  rw [hsame, hothers] at hnames
  have hsome : Function.Injective (some : String → Option String) := fun _ _ h => Option.some.inj h
  exact (List.map_injective_iff.mpr hsome hnames).symm

theorem spellsOut_ofMembers {names : List String} (hne : names ≠ []) :
    SpellsOut (Expression.ofMembers (some names)) names := by
  have htext : Expression.ofMembers (some names) =
      " | ".intercalate (names.map Json.stringLiteral) := by
    obtain ⟨name, names, rfl⟩ := List.exists_cons_of_ne_nil hne
    rfl
  have hread : (names.map Json.stringLiteral).map ofLiteral? = names.map some := by
    rw [List.map_map]
    exact List.map_congr_left fun name _ => Json.ofLiteral?_stringLiteral name
  have hliterals : ∀ l ∈ names.map Json.stringLiteral, (ofLiteral? l).isSome := by
    intro l hl
    obtain ⟨name, -, rfl⟩ := List.mem_map.mp hl
    rw [Json.ofLiteral?_stringLiteral]
    rfl
  -- the literals are one way to split the text, and a text can be split in one way only
  have hunion : IsUnionOf (names.map Json.stringLiteral) (Expression.ofMembers (some names)) :=
    ⟨hliterals, htext.symm⟩
  refine ⟨⟨names.map Json.stringLiteral, fun ms => ⟨fun hms => hms.unique hunion, ?_⟩, hread⟩, ?_⟩
  · rintro rfl
    exact hunion
  · intro hstring
    -- what starts with a quote is not the type of all texts
    obtain ⟨s, hs⟩ := exists_quote_intercalate (by simpa using hne) hliterals
    rw [← htext, hstring] at hs
    exact absurd (List.cons.inj hs).1 (by decide)

/-- Lists of members, empty ones among them, have the same text only if they are the same. -/
theorem ofMembers_inj {names others : List String} :
    Expression.ofMembers (some names) = Expression.ofMembers (some others) ↔ names = others := by
  refine ⟨fun h => ?_, fun h => by rw [h]⟩
  -- a type without members is that of all texts, which no literals spell out
  by_cases hnames : names = []
  · by_cases hothers : others = []
    · rw [hnames, hothers]
    · rw [hnames] at h
      exact absurd h.symm (spellsOut_ofMembers hothers).restricts
  · by_cases hothers : others = []
    · rw [hothers] at h
      exact absurd h (spellsOut_ofMembers hnames).restricts
    · have hspells := spellsOut_ofMembers hnames
      rw [h] at hspells
      exact hspells.unique (spellsOut_ofMembers hothers)

/--
**The members of an enumeration are read back from its text.**

A text type that lists members compiles, in every scope and without warnings, to a text that is
divided into literals in one way only. The literals stand for the members, in the order of the
schema and as often as they are listed. The text is not that of a type without members, and a type
with other members has another text.
-/
theorem expression_enumeration {fields : Fields} {names : List String}
    (h : Enumerates fields names) (hne : names ≠ []) :
    ∃ n t, Node.ofJson (.obj fields) = .ok n ∧
      (∀ scope, n.expression scope = ⟨[], .ok (.text t)⟩) ∧ SpellsOut t names ∧
      ∀ gs others m scope, Enumerates gs others → Node.ofJson (.obj gs) = .ok m →
        ((m.expression scope).result = .ok (.text t) ↔ others = names) := by
  refine ⟨_, Expression.ofMembers (some names), ofJson_of_enumerates h, ?_,
    spellsOut_ofMembers hne, ?_⟩
  · intro scope
    simp [Node.expression, compile]
  · intro gs others m scope hothers hm
    -- what is read of a document with members is its members, so the texts can be compared
    obtain rfl := Except.ok.inj ((ofJson_of_enumerates hothers).symm.trans hm)
    simp [Node.expression, compile, ofMembers_inj]

/-- A bar, quotes, a backslash, a sign above U+FFFF and a member that is listed twice. -/
theorem expression_enumeration_bars :
    ∃ n t, Node.ofJson (.obj [("type", .str "string"), ("enum", .arr [.str "a\" | \"b",
        .obj [("name", .str "\\😀")], .str "a\" | \"b", .str ""])]) = .ok n ∧
      (∀ scope, n.expression scope = ⟨[], .ok (.text t)⟩) ∧
      SpellsOut t ["a\" | \"b", "\\😀", "a\" | \"b", ""] := by
  have h : Enumerates [("type", .str "string"), ("enum", .arr [.str "a\" | \"b",
      .obj [("name", .str "\\😀")], .str "a\" | \"b", .str ""])]
      ["a\" | \"b", "\\😀", "a\" | \"b", ""] := by
    refine ⟨rfl, Or.inl rfl, _, rfl, ?_⟩
    exact .cons (.text _) (.cons (.object rfl) (.cons (.text _) (.cons (.text _) .nil)))
  obtain ⟨n, t, hn, ht, hspells, -⟩ := expression_enumeration h (List.cons_ne_nil _ _)
  exact ⟨n, t, hn, ht, hspells⟩

end Typings.Schema
