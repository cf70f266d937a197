import Typings.Proofs.DeclaredReferences
import Typings.Proofs.ScopeDependence

/-!
# What dropping namespaces changes

When namespaces are dropped from a table, those that are left keep their order. So a
reference that resolves to a namespace that is left resolves to it as before, and the blocks
of the other namespaces stay what they are, as long as they do not refer to what is dropped.

A reference that points into a dropped namespace stays as it is and is reported only if it
does not name the namespace and no other namespace declares a type of this name. Else it
stays unreported, or it comes to mean the type of another namespace.
-/

namespace Typings

open Schema (Node Record)
open Declaration (namespaceLines namespaceLines_of_some namespaceLines_of_none blockLines_congr)

namespace Table

variable {t : Table} {ignored : Ignored} {current m : String} {id : Json}

/-! ## Resolution -/

/-- A namespace that is kept has the record that it had. -/
theorem get?_dropIgnored {name : String} (h : ignored.covers name = false) (t : Table) :
    (t.dropIgnored ignored).get? name = t.get? name :=
  Keyed.find?_filter (fun r hr => by rw [hr, h]; rfl) t.records

/-- Of the namespaces that declare a type, those are left that are kept. -/
theorem declaring_dropIgnored (ignored : Ignored) (t : Table) (id : Json) :
    (t.dropIgnored ignored).declaring id =
      (t.declaring id).filter fun n => !ignored.covers n := by
  unfold declaring dropIgnored
  rw [List.filter_map, List.filter_filter, List.filter_filter]
  simp only [Function.comp_def, Bool.and_comm]

/-- The current namespace comes first, and then the table's order counts. -/
theorem resolve_eq (t : Table) (current : String) (id : Json) :
    t.resolve current id =
      if current ∈ t.declaring id then some current else (t.declaring id).head? := by
  unfold resolve
  simp only [List.contains_iff_mem]

theorem mem_declaring_dropIgnored (h : ignored.covers current = false) :
    current ∈ (t.dropIgnored ignored).declaring id ↔ current ∈ t.declaring id := by
  simp [declaring_dropIgnored, List.mem_filter, h]

/-- A type that no namespace declares is declared by none of the others. -/
theorem resolve_eq_none_iff : t.resolve current id = none ↔ t.declaring id = [] := by
  rw [resolve_eq]
  split
  case isTrue h => simp [List.ne_nil_of_mem h]
  case isFalse => rw [List.head?_eq_none_iff]

/-- A type that resolves to another namespace is not declared in the current one. -/
theorem not_mem_declaring_of_resolve (h : t.resolve current id = some m) (hm : m ≠ current) :
    current ∉ t.declaring id := by
  intro hmem
  rw [resolve_eq, if_pos hmem, Option.some.injEq] at h
  exact hm h.symm

theorem ne_of_covers (hcurrent : ignored.covers current = false) (hm : ignored.covers m = true) :
    m ≠ current := by
  rintro rfl
  rw [hm] at hcurrent
  cases hcurrent

/-- **A reference that resolves to a namespace that is kept resolves to it as before.** -/
theorem resolve_dropIgnored_of_kept (hcurrent : ignored.covers current = false)
    (h : t.resolve current id = some m) (hm : ignored.covers m = false) :
    (t.dropIgnored ignored).resolve current id = some m := by
  rw [resolve_eq] at h ⊢
  simp only [mem_declaring_dropIgnored hcurrent]
  split at h
  case isTrue hmem => rw [if_pos hmem, h]
  case isFalse hmem =>
    rw [if_neg hmem, declaring_dropIgnored]
    -- the first of all that declare the type is the first of those that are left
    cases hdecl : t.declaring id with
    | nil => rw [hdecl] at h; cases h
    | cons n ns =>
      rw [hdecl, List.head?_cons, Option.some.injEq] at h
      rw [List.filter_cons_of_pos (by simp [h, hm]), List.head?_cons, h]

/-- **A reference into a dropped namespace resolves to the first that is left among those that
declare its type.** -/
theorem resolve_dropIgnored_of_dropped (hcurrent : ignored.covers current = false)
    (h : t.resolve current id = some m) (hm : ignored.covers m = true) :
    (t.dropIgnored ignored).resolve current id =
      (t.declaring id).find? fun n => !ignored.covers n := by
  have hmem := not_mem_declaring_of_resolve h (ne_of_covers hcurrent hm)
  rw [resolve_eq, if_neg (mt (mem_declaring_dropIgnored hcurrent).mp hmem),
    declaring_dropIgnored, List.head?_filter]

end Table

/-! ## Blocks of the namespaces that are kept -/

namespace Schema.Record

/-- Some node of the record, at whatever depth, is a reference to `target`. -/
def RefersTo (r : Record) (target : Json) : Prop :=
  ∃ n ∈ r.nodes, n.shape = .reference target

end Schema.Record

namespace Scope

/-- A reference is known under a name that depends on what it resolves to. -/
theorem qualify_congr {t t' : Table} {current : String} {target : Json}
    (h : isQualified target = .ok false → t.resolve current target = t'.resolve current target) :
    Scope.qualify ⟨current, t⟩ target = Scope.qualify ⟨current, t'⟩ target := by
  simp only [qualify, Outcome.lift_eq]
  cases hq : isQualified target with
  | error e => rw [Outcome.error_bind, Outcome.error_bind]
  | ok qualified =>
    cases qualified with
    | true => rw [Outcome.ok_bind, Outcome.ok_bind, if_pos rfl, if_pos rfl]
    | false => rw [h hq]

end Scope

/--
**Ignoring namespaces is local.**

Say that every reference in the record of a namespace that does not name its namespace is
declared nowhere, or resolves to a namespace that is kept. Then the block of this namespace
has the same lines and raises the same warnings, in the same order, whether the ignored
namespaces are in the table or not.
-/
theorem Declaration.namespaceLines_dropIgnored {t : Table} {ignored : Table.Ignored}
    {name : String} (hkept : ignored.covers name = false)
    (hrefs : ∀ r, t.get? name = some r → ∀ target, r.RefersTo target →
      isQualified target = .ok false →
      t.declaring target = [] ∨ ∃ m, t.resolve name target = some m ∧ ignored.covers m = false)
    (root : String) :
    namespaceLines (t.dropIgnored ignored) root name = namespaceLines t root name := by
  have hget := Table.get?_dropIgnored hkept t
  cases hr : t.get? name with
  | none =>
    rw [namespaceLines_of_none (hget.trans hr), namespaceLines_of_none hr]
  | some r =>
    have hname : r.name = name := Table.name_of_get? hr
    rw [namespaceLines_of_some (hget.trans hr), namespaceLines_of_some hr]
    -- only references look at the table, so it is enough that each is qualified alike
    refine blockLines_congr ⟨rfl, fun n hn target hshape => Scope.qualify_congr fun hq => ?_⟩
    rw [hname]
    rcases hrefs r hr target ⟨n, hn, hshape⟩ hq with hnone | ⟨m, hm, hmkept⟩
    · rw [Table.resolve_eq_none_iff.mpr hnone, Table.resolve_eq_none_iff,
        Table.declaring_dropIgnored, hnone, List.filter_nil]
    · rw [hm, Table.resolve_dropIgnored_of_kept hkept hm hmkept]

/-- Three namespaces. The menus refer to a type of the windows, to one that is nowhere, and
by its full name to one of the tabs. -/
def Table.menus : Table where
  records :=
    [{ name := "tabs", types := [⟨{ id := .str "Tab" }, .any⟩] },
     { name := "windows"
       types := [⟨{ id := .str "Window" }, .any⟩, ⟨{ id := .str "Tab" }, .any⟩] },
     { name := "menus"
       functions := [⟨.str "show", .bool false, .null,
         [⟨.str "in", ⟨{}, .array (some ⟨{}, .reference (.str "Window")⟩)⟩⟩,
          ⟨.str "at", ⟨{}, .reference (.str "Place")⟩⟩],
         some ⟨{}, .reference (.str "tabs.Tab")⟩, .bool false, false⟩] }]
  nodup := by decide

theorem Table.menus_refersTo {r : Record} (hr : menus.get? "menus" = some r) {target : Json}
    (h : r.RefersTo target) :
    target = .str "Window" ∨ target = .str "Place" ∨ target = .str "tabs.Tab" := by
  obtain rfl := Option.some.inj hr
  obtain ⟨n, hn, hshape⟩ := h
  have hnodes : n ∈ [⟨{}, .array (some ⟨{}, .reference (.str "Window")⟩)⟩,
      ⟨{}, .reference (.str "Window")⟩, ⟨{}, .reference (.str "Place")⟩,
      (⟨{}, .reference (.str "tabs.Tab")⟩ : Node)] := hn
  simp only [List.mem_cons, List.not_mem_nil, or_false] at hnodes
  rcases hnodes with rfl | rfl | rfl | rfl <;> cases hshape <;> simp

theorem Declaration.namespaceLines_dropIgnored_menus :
    (Table.Ignored.listed ["tabs"]).covers "menus" = false ∧
      (∀ r, Table.menus.get? "menus" = some r → ∀ target, r.RefersTo target →
        isQualified target = .ok false →
        Table.menus.declaring target = [] ∨
          ∃ m, Table.menus.resolve "menus" target = some m ∧
            (Table.Ignored.listed ["tabs"]).covers m = false) ∧
      namespaceLines (Table.menus.dropIgnored (.listed ["tabs"])) "browser" "menus" =
        namespaceLines Table.menus "browser" "menus" := by
  have hrefs : ∀ r, Table.menus.get? "menus" = some r → ∀ target, r.RefersTo target →
      isQualified target = .ok false →
      Table.menus.declaring target = [] ∨
        ∃ m, Table.menus.resolve "menus" target = some m ∧
          (Table.Ignored.listed ["tabs"]).covers m = false := by
    intro r hr target href hq
    rcases Table.menus_refersTo hr href with rfl | rfl | rfl
    · exact Or.inr ⟨"windows", by decide, by decide⟩
    · exact Or.inl (by decide)
    · exact absurd hq (by decide)
  exact ⟨by decide, hrefs, namespaceLines_dropIgnored (by decide) hrefs "browser"⟩

/-! ## References into a dropped namespace -/

/-- A reference that stands in the namespace `current` points into the namespace `m`: it
resolves to `m`, or it names `m` and the type is declared there. -/
inductive Table.PointsInto (t : Table) (current m : String) : String → Prop
  | resolved {ref : String} : Text.mentions "." ref = false →
    t.resolve current (.str ref) = some m → PointsInto t current m ref
  | named {id : String} : m ∈ t.declaring (.str id) → PointsInto t current m (m ++ "." ++ id)

theorem mentions_point (m id : String) : Text.mentions "." (m ++ "." ++ id) = true := by
  refine Text.occurs_iff.mpr ⟨m.toList, id.toList, ?_⟩
  rw [String.toList_append, String.toList_append]

namespace Scope

variable {scope : Scope} {ref : String}

/-- What names its namespace is taken as it is. -/
theorem qualify_of_point (h : Text.mentions "." ref = true) :
    scope.qualify (.str ref) = ⟨[], .ok (.text ref)⟩ := by
  simp [qualify, isQualified, h, Outcome.lift_eq, Expression.ofName]

/-- What resolves to nothing is taken as it is, and reported. -/
theorem qualify_of_none (h : Text.mentions "." ref = false)
    (hresolve : scope.table.resolve scope.current (.str ref) = none) :
    scope.qualify (.str ref) =
      ⟨[.unresolvedReference (.str ref) scope.current], .ok (.text ref)⟩ := by
  simp [qualify, isQualified, h, hresolve, Outcome.lift_eq, Outcome.warn, Expression.ofName]

/-- What resolves to another namespace is qualified with it. -/
theorem qualify_of_some {m : String} (h : Text.mentions "." ref = false)
    (hresolve : scope.table.resolve scope.current (.str ref) = some m) (hm : m ≠ scope.current) :
    scope.qualify (.str ref) = ⟨[], .ok (.text (m ++ "." ++ ref))⟩ := by
  simp [qualify, isQualified, h, hresolve, hm, Outcome.lift_eq]

end Scope

/--
**What becomes of a reference into an ignored namespace.**

Take a reference that stands in a namespace that is kept and points into one that is ignored.
Without the ignored namespaces it is left as it is and reported exactly if it does not name
its namespace and all namespaces that declare a type of this name are ignored. If it names
its namespace, it is left as it is without a word. If another namespace declares such a type,
it is qualified with the first one that does, without a word either.
-/
theorem expression_dropIgnored {t : Table} {ignored : Table.Ignored} {current m ref : String}
    (hcurrent : ignored.covers current = false) (hm : ignored.covers m = true)
    (h : t.PointsInto current m ref) (info : Schema.Info) :
    (Node.expression ⟨current, t.dropIgnored ignored⟩ ⟨info, .reference (.str ref)⟩ =
        ⟨[.unresolvedReference (.str ref) current], .ok (.text ref)⟩ ↔
      Text.mentions "." ref = false ∧
        ∀ n ∈ t.declaring (.str ref), ignored.covers n = true) ∧
    (Text.mentions "." ref = true →
      Node.expression ⟨current, t.dropIgnored ignored⟩ ⟨info, .reference (.str ref)⟩ =
        ⟨[], .ok (.text ref)⟩) ∧
    ∀ n, Text.mentions "." ref = false →
      (t.declaring (.str ref)).find? (fun n => !ignored.covers n) = some n →
      Node.expression ⟨current, t.dropIgnored ignored⟩ ⟨info, .reference (.str ref)⟩ =
        ⟨[], .ok (.text (n ++ "." ++ ref))⟩ := by
  have hqualify : Node.expression ⟨current, t.dropIgnored ignored⟩ ⟨info, .reference (.str ref)⟩ =
      Scope.qualify ⟨current, t.dropIgnored ignored⟩ (.str ref) := by
    rw [Node.expression, compile]
  rw [hqualify]
  cases h with
  -- a reference with a point is taken as it is, whatever the table holds
  | @named id hdecl =>
    have hpoint := mentions_point m id
    rw [Scope.qualify_of_point hpoint]
    simp [hpoint]
  -- one without a point goes to the first namespace that declares it and is kept
  | resolved hpoint hresolve =>
    have hfind := Table.resolve_dropIgnored_of_dropped hcurrent hresolve hm
    have hnot := Table.not_mem_declaring_of_resolve hresolve (Table.ne_of_covers hcurrent hm)
    cases hn : (t.declaring (.str ref)).find? fun n => !ignored.covers n with
    | none =>
      rw [Scope.qualify_of_none hpoint (hfind.trans hn)]
      simpa [hpoint] using hn
    | some n =>
      have hmem : n ∈ t.declaring (.str ref) := List.mem_of_find?_eq_some hn
      have hkept : ignored.covers n = false := by simpa using List.find?_some hn
      have hne : n ≠ current := fun he => hnot (he ▸ hmem)
      rw [Scope.qualify_of_some hpoint (hfind.trans hn) hne]
      simpa [hpoint] using ⟨n, hmem, hkept⟩

theorem expression_dropIgnored_window :
    (Table.Ignored.listed ["windows"]).covers "menus" = false ∧
      (Table.Ignored.listed ["windows"]).covers "windows" = true ∧
      Table.menus.PointsInto "menus" "windows" "Window" ∧
      (Node.expression ⟨"menus", Table.menus.dropIgnored (.listed ["windows"])⟩
            ⟨{}, .reference (.str "Window")⟩ =
          ⟨[.unresolvedReference (.str "Window") "menus"], .ok (.text "Window")⟩ ↔
        Text.mentions "." "Window" = false ∧
          ∀ n ∈ Table.menus.declaring (.str "Window"),
            (Table.Ignored.listed ["windows"]).covers n = true) ∧
      (Text.mentions "." "Window" = true →
        Node.expression ⟨"menus", Table.menus.dropIgnored (.listed ["windows"])⟩
            ⟨{}, .reference (.str "Window")⟩ = ⟨[], .ok (.text "Window")⟩) ∧
      ∀ n, Text.mentions "." "Window" = false →
        ((Table.menus.declaring (.str "Window")).find? fun n =>
          !(Table.Ignored.listed ["windows"]).covers n) = some n →
        Node.expression ⟨"menus", Table.menus.dropIgnored (.listed ["windows"])⟩
            ⟨{}, .reference (.str "Window")⟩ = ⟨[], .ok (.text (n ++ "." ++ "Window"))⟩ := by
  have hpoints : Table.menus.PointsInto "menus" "windows" "Window" :=
    .resolved (by decide) (by decide)
  exact ⟨by decide, by decide, hpoints, expression_dropIgnored (by decide) (by decide) hpoints {}⟩

/-- Not every reference into an ignored namespace is reported and left as it is: one may come to
mean the type of another namespace. -/
theorem expression_dropIgnored_retargeted :
    ¬ ∀ (t : Table) (ignored : Table.Ignored) (current m ref : String) (info : Schema.Info),
      current ∈ t.names → ignored.covers current = false → ignored.covers m = true →
      t.PointsInto current m ref →
      .unresolvedReference (.str ref) current ∈
          (Node.expression ⟨current, t.dropIgnored ignored⟩
            ⟨info, .reference (.str ref)⟩).warnings ∧
        (Node.expression ⟨current, t.dropIgnored ignored⟩
            ⟨info, .reference (.str ref)⟩).result = .ok (.text ref) := by
  intro h
  obtain ⟨hwarned, -⟩ := h Table.menus (.listed ["tabs"]) "menus" "tabs" "Tab" {}
    (by decide) (by decide) (by decide) (.resolved (by decide) (by decide))
  -- another namespace has a type of that name, and the reference now means that one
  have hexpression : Node.expression ⟨"menus", Table.menus.dropIgnored (.listed ["tabs"])⟩
      ⟨{}, .reference (.str "Tab")⟩ = ⟨[], .ok (.text "windows.Tab")⟩ := rfl
  rw [hexpression] at hwarned
  exact absurd hwarned (by simp)

end Typings
