import Typings.Proofs.DeclaredNames
import Typings.Proofs.Grouping

/-!
# References that resolve

A reference without a point that raises no warning points into a namespace of the table
whose record has a type of this name. Whether the block of that namespace declares the
type is another question, since a type that is not supported still resolves but is not
written out: a reference is declared exactly if a supported type, or a supported extension
of an object type, is written out under its name.

The way back, from a line that declares a name to the type behind it, is the harder one: a line
tells its name only if names hold no equals sign, which the condition on the record grants.
-/

namespace Typings

open Schema (Node Record)
open Declaration (Declares Introduces typesLines writtenName?)

namespace Json

/-- Only a text has the canonical form of a text, and it is that text. -/
theorem canonical_eq_str {v : Json} {s : String} : v.canonical = .str s ↔ v = .str s := by
  rcases v with (_ | b | n | x | t) | items | fields
  case scalar.float =>
    rw [canonical, Scalar.canonical]
    split <;> simp
  all_goals simp [canonical, Scalar.canonical]

/-- A text is equal to itself only. -/
theorem equals_str {v : Json} {s : String} : v.equals (.str s) = true ↔ v = .str s := by
  have hsame : v.same (.str s) = true ↔ v = .str s := by
    rw [same, decide_eq_true_eq, show (Json.str s).canonical = .str s from rfl, canonical_eq_str]
  rw [equals, Bool.and_eq_true, hsame, decide_eq_true_eq]
  refine ⟨And.right, ?_⟩
  rintro rfl
  exact ⟨by simp, rfl⟩

end Json

namespace Table

/-- The namespaces that declare a type have records that do. -/
theorem mem_declaring {t : Table} {id : Json} {name : String} :
    name ∈ t.declaring id ↔ ∃ r, t.get? name = some r ∧ r.declares id = true := by
  unfold declaring
  simp only [List.mem_map, List.mem_filter]
  constructor
  · rintro ⟨r, ⟨hr, hdecl⟩, rfl⟩
    exact ⟨r, get?_of_mem hr, hdecl⟩
  · rintro ⟨r, hr, hdecl⟩
    exact ⟨r, ⟨Keyed.mem_of_find? hr, hdecl⟩, name_of_get? hr⟩

/-- **A reference resolves to a namespace that declares its type.** -/
theorem declares_of_resolve {t : Table} {current name : String} {id : Json}
    (h : t.resolve current id = some name) :
    ∃ r, t.get? name = some r ∧ r.declares id = true := by
  refine mem_declaring.mp ?_
  unfold resolve at h
  dsimp only at h
  split at h
  case isTrue hcurrent =>
    obtain rfl := Option.some.inj h
    exact List.contains_iff_mem.mp hcurrent
  case isFalse => exact List.mem_of_head? h

end Table

namespace Schema.Record

/-- A record that declares a text has a type with this text for a name. -/
theorem exists_of_declares {r : Record} {id : String} (h : r.declares (.str id) = true) :
    ∃ n ∈ r.types, n.info.id = .str id := by
  unfold declares at h
  obtain ⟨n, hn, hid⟩ := List.any_eq_true.mp h
  exact ⟨n, hn, Json.equals_str.mp hid⟩

/-- A type with a name is written out under it. -/
theorem writtenName?_of_id {r : Record} {n : Node} {id : String} (h : n.info.id = .str id) :
    writtenName? r n = some id := by
  unfold writtenName?
  rw [h, if_neg (by simp), Json.display_str]

/-- A supported type is introduced under its name. -/
theorem introduces_of_supported {r : Record} {n : Node} {id : String} (hn : n ∈ r.types)
    (hid : n.info.id = .str id) (h : n.info.unsupported = false) : Introduces r id :=
  ⟨n, hn, h, writtenName?_of_id hid⟩

end Schema.Record

namespace Scope

/-- What qualifying a reference without a point does, if it raises no warning. -/
theorem qualify_eq {scope : Scope} {ref : String} (hpoint : Text.mentions "." ref = false)
    (hresolved : .unresolvedReference (.str ref) scope.current ∉
      (scope.qualify (.str ref)).warnings) :
    ∃ name, scope.table.resolve scope.current (.str ref) = some name ∧
      (scope.qualify (.str ref)).result =
        .ok (.text (if name = scope.current then ref else name ++ "." ++ ref)) := by
  have hqualified : isQualified (.str ref) = .ok false := by simp [isQualified, hpoint]
  simp only [qualify, hqualified, Outcome.lift_eq, Outcome.ok_bind] at hresolved ⊢
  cases hname : scope.table.resolve scope.current (.str ref) with
  | none =>
    -- the reference is reported
    rw [hname] at hresolved
    exact absurd hresolved (by simp [Outcome.warn])
  | some name =>
    refine ⟨name, rfl, ?_⟩
    by_cases hcurrent : name = scope.current
    · simp [hcurrent, Expression.ofName]
    · simp [hcurrent]

end Scope

/--
**References resolve to declared types, but for types that are not supported.**

A reference without a point that is qualified without a warning points into a namespace `m`
of the table that has a type of this name. The lines that declare the types of `m` declare
the name exactly if `m` introduces it: if some type that is supported is written out under
the name, as every supported type that has the name is. That nothing else declares it holds
as long as the names in `m` are free of equals signs.
-/
theorem Scope.qualify_declared {t : Table} {current ref : String}
    (hpoint : Text.mentions "." ref = false)
    (hresolved : .unresolvedReference (.str ref) current ∉
      (Scope.qualify ⟨current, t⟩ (.str ref)).warnings) :
    ∃ m r, t.get? m = some r ∧ r.declares (.str ref) = true ∧
      (Scope.qualify ⟨current, t⟩ (.str ref)).result =
        .ok (.text (if m = current then ref else m ++ "." ++ ref)) ∧
      ((∃ n ∈ r.types, n.info.id = .str ref ∧ n.info.unsupported = false) → Introduces r ref) ∧
      ∀ lines, (typesLines ⟨m, t⟩ r).result = .ok lines →
        (Introduces r ref → ∃ line ∈ lines, Declares ref line) ∧
        ((∀ n ∈ r.types, ∀ id, writtenName? r n = some id → '=' ∉ id.toList) →
          (∃ line ∈ lines, Declares ref line) → Introduces r ref) := by
  -- without a warning the name is resolved, to a namespace that has a type of this name
  obtain ⟨m, hm, hresult⟩ := qualify_eq hpoint hresolved
  obtain ⟨r, hr, hdecl⟩ := Table.declares_of_resolve hm
  obtain ⟨n, hn, hid⟩ := Record.exists_of_declares hdecl
  refine ⟨m, r, hr, hdecl, hresult, ?_, fun lines hlines => ⟨?_, ?_⟩⟩
  · rintro ⟨n, hn, hid, hsupported⟩
    exact Record.introduces_of_supported hn hid hsupported
  · exact fun hintroduces => Declaration.declares_of_introduces hintroduces hlines
  · rintro hnames ⟨line, hline, hdeclares⟩
    have href : '=' ∉ ref.toList := hnames n hn ref (Record.writtenName?_of_id hid)
    exact Declaration.introduces_of_declares hnames href hlines hline hdeclares

/-- Two namespaces that say what a tab is. In the second one this is not supported. -/
def Table.tabTypes : Table where
  records :=
    [{ name := "tabs", types := [⟨{ id := .str "Tab" }, .object none [] [] none⟩] },
     { name := "legacy", types := [⟨{ id := .str "OldTab", unsupported := true }, .string none⟩] }]
  nodup := List.pairwise_pair.mpr (by decide)

theorem Scope.qualify_declared_tab :
    Text.mentions "." "Tab" = false ∧
      .unresolvedReference (.str "Tab") "legacy" ∉
        (Scope.qualify ⟨"legacy", Table.tabTypes⟩ (.str "Tab")).warnings ∧
      (Table.tabTypes.records.mapM fun r => typesLines ⟨r.name, Table.tabTypes⟩ r).result =
        .ok [["  interface Tab \x7b", "  \x7d"], []] ∧
      ∃ m r, Table.tabTypes.get? m = some r ∧ r.declares (.str "Tab") = true ∧
        (Scope.qualify ⟨"legacy", Table.tabTypes⟩ (.str "Tab")).result =
          .ok (.text (if m = "legacy" then "Tab" else m ++ "." ++ "Tab")) ∧
        ((∃ n ∈ r.types, n.info.id = .str "Tab" ∧ n.info.unsupported = false) →
          Introduces r "Tab") ∧
        ∀ lines, (typesLines ⟨m, Table.tabTypes⟩ r).result = .ok lines →
          (Introduces r "Tab" → ∃ line ∈ lines, Declares "Tab" line) ∧
          ((∀ n ∈ r.types, ∀ id, writtenName? r n = some id → '=' ∉ id.toList) →
            (∃ line ∈ lines, Declares "Tab" line) → Introduces r "Tab") :=
  ⟨by decide, by decide, rfl, Scope.qualify_declared (by decide) (by decide)⟩

/-- A type that is not supported can be referred to without a warning, but no line declares
it. -/
theorem Scope.qualify_undeclared :
    ¬ ∀ (rs : List Record) (ignored : Table.Ignored) (t : Table) (current ref : String),
      Table.build rs ignored = .ok t → current ∈ t.names → Text.mentions "." ref = false →
      .unresolvedReference (.str ref) current ∉
        (Scope.qualify ⟨current, t⟩ (.str ref)).warnings →
      ∃ m r, t.get? m = some r ∧
        (Scope.qualify ⟨current, t⟩ (.str ref)).result =
          .ok (.text (if m = current then ref else m ++ "." ++ ref)) ∧
        ∀ lines, (typesLines ⟨m, t⟩ r).result = .ok lines → ∃ line ∈ lines, Declares ref line := by
  intro h
  obtain ⟨m, r, hr, hresult, hlines⟩ := h Table.tabTypes.records (.listed []) Table.tabTypes
    "legacy" "OldTab" rfl (by decide) (by decide) (by decide)
  have hbare : (Scope.qualify ⟨"legacy", Table.tabTypes⟩ (.str "OldTab")).result =
    .ok (.text "OldTab") := rfl
  -- the name is written without a namespace, so it can only be that of its own
  have hm : m = "legacy" := by
    by_contra hne
    rw [hbare, if_neg hne] at hresult
    have hlength := congrArg String.length (Expression.text.inj (Except.ok.inj hresult))
    have hpoint : ".".length = 1 := rfl
    simp only [String.length_append, hpoint] at hlength
    omega
  subst hm
  obtain rfl := Option.some.inj hr
  obtain ⟨line, hline, -⟩ := hlines [] rfl
  exact absurd hline (by simp)

end Typings
