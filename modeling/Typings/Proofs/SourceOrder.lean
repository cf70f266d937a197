import Mathlib.Data.List.Basic
import Typings.Proofs.EarlyRemoval

/-!
# References follow the order of the source

A reference is resolved in the table that has been built, where the records of a namespace are
merged into one, types that come again are left out, and the ignored namespaces are gone. Still
the answer can be read off the records as they came. Merging loses no name of a type, so a
namespace declares what any of its records declares; and it moves no namespace, so the first of
several is the one whose first record came first, whichever of its records has the type.

The namespaces that declare a name are a filter of the names of the table, in their order, and the
names of the table are those of the records, each at its first place. So the first member of the
filter is the one whose place among the records is the least.
-/

namespace Typings

open Schema (Node Record)

namespace Json

/-- Only the value that is not a number has its canonical form. -/
theorem canonical_eq_nan {v : Json} : v.canonical = .float .nan ↔ v = .float .nan := by
  constructor
  · intro h
    rcases v with (_ | b | n | x | s) | items | fields
    case scalar.float =>
      rw [canonical, Scalar.canonical] at h
      split at h
      · cases h
      · exact h
    all_goals cases h
  · rintro rfl
    rfl

/-- What a value is equal to depends on its canonical form only. -/
theorem equals_congr {a b : Json} (h : a.canonical = b.canonical) (c : Json) :
    a.equals c = b.equals c := by
  have hnan : a = .float .nan ↔ b = .float .nan := by
    rw [← canonical_eq_nan, h, canonical_eq_nan]
  rw [equals, equals, same, same, h, decide_eq_decide.mpr (not_congr hnan)]

end Json

/-- Thinning out does not change whether there is a member of some kind, if members with the same
key are of the same kind. -/
theorem Keyed.any_distinct {α κ : Type} [DecidableEq κ] {key : α → Option κ} {kind : α → Bool}
    (h : ∀ a b, key a = key b → kind a = kind b) (as : List α) :
    (distinct key as).any kind = as.any kind := by
  refine Bool.eq_iff_iff.mpr ⟨fun hany => ?_, fun hany => ?_⟩
  · obtain ⟨a, ha, hkind⟩ := List.any_eq_true.mp hany
    exact List.any_eq_true.mpr ⟨a, mem_of_mem_distinct ha, hkind⟩
  · obtain ⟨a, ha, hkind⟩ := List.any_eq_true.mp hany
    -- something of the kind is left, since thinning out leaves nothing of nothing only
    have hne : (distinct key as).filter kind ≠ [] := by
      rw [← distinct_filter_of_key h]
      exact distinct_ne_nil (List.ne_nil_of_mem (List.mem_filter.mpr ⟨ha, hkind⟩))
    obtain ⟨b, hb⟩ := List.exists_mem_of_ne_nil _ hne
    obtain ⟨hb, hkind⟩ := List.mem_filter.mp hb
    exact List.any_eq_true.mpr ⟨b, hb, hkind⟩

namespace Schema

/-- Types with the same key have names for the same thing. -/
theorem Node.canonical_id_of_typeKey {m n : Node} (h : m.typeKey = n.typeKey) :
    m.info.id.canonical = n.info.id.canonical := by
  unfold Node.typeKey at h
  split at h
  case h_1 hm =>
    split at h
    case h_1 hn => rw [hm, hn]
    case h_2 => cases h
  case h_2 =>
    split at h
    case h_1 => cases h
    case h_2 => exact Option.some.inj h

namespace Record

/-- **Merging loses no declaration**, and adds none. -/
theorem declares_merge (a b : Record) (id : Json) :
    (a.merge b).declares id = (a.declares id || b.declares id) := by
  have hkey : ∀ m n : Node, m.typeKey = n.typeKey →
      m.info.id.equals id = n.info.id.equals id :=
    fun m n h => Json.equals_congr (Node.canonical_id_of_typeKey h) id
  show (Keyed.distinct Node.typeKey (a.types ++ b.types)).any _ = _
  rw [Keyed.any_distinct hkey, List.any_append]
  rfl

/-- What several records say together declares what one of them declares. -/
theorem declares_mergeAll {rs : List Record} {m : Record} (h : mergeAll rs = some m)
    (id : Json) : m.declares id = true ↔ ∃ r ∈ rs, r.declares id = true := by
  induction rs using List.reverseRecOn generalizing m with
  | nil => cases h
  | append_singleton rs s ih =>
    rcases mergeAll_concat_cases h with ⟨rfl, rfl⟩ | ⟨a, ha, rfl⟩
    · simp
    · rw [declares_merge, Bool.or_eq_true, ih ha]
      simp only [List.mem_append, List.mem_singleton, or_and_right, exists_or, exists_eq_left]

end Record

end Schema

namespace Table

variable {rs : List Record} {ignored : Ignored} {t : Table} {current : String} {id : Json}

/-! ## Which namespaces declare a type -/

/-- A namespace declares a type in a table if one of its records does. -/
theorem Represents.mem_declaring (h : Represents t rs) {name : String} :
    name ∈ t.declaring id ↔ ∃ r ∈ rs, r.name = name ∧ r.declares id = true := by
  rw [Table.mem_declaring]
  constructor
  · rintro ⟨m, hm, hdecl⟩
    rw [h.get] at hm
    obtain ⟨r, hr, hdecl⟩ := (Record.declares_mergeAll hm id).mp hdecl
    obtain ⟨hr, hname⟩ := mem_group.mp hr
    exact ⟨r, hr, hname, hdecl⟩
  -- the record is in the group of its name, so the group is not empty and was merged
  · rintro ⟨r, hr, hname, hdecl⟩
    have hgroup : r ∈ group name rs := mem_group.mpr ⟨hr, hname⟩
    obtain ⟨m, hm⟩ : ∃ m, Record.mergeAll (group name rs) = some m :=
      Option.ne_none_iff_exists'.mp fun hnone =>
        List.ne_nil_of_mem hgroup (Record.eq_nil_of_mergeAll hnone)
    exact ⟨m, (h.get name).trans hm, (Record.declares_mergeAll hm id).mpr ⟨r, hgroup, hdecl⟩⟩

/-- The namespaces that declare a type are listed as their names are. -/
theorem declaring_eq_filter (t : Table) (id : Json) :
    t.declaring id = t.names.filter fun n => n ∈ t.declaring id := by
  unfold names
  rw [List.filter_map]
  refine congrArg (List.map Record.name) (List.filter_congr fun r hr => ?_)
  rw [Function.comp_apply, Bool.eq_iff_iff, decide_eq_true_eq, Table.mem_declaring]
  constructor
  · exact fun hdecl => ⟨r, get?_of_mem hr, hdecl⟩
  · rintro ⟨s, hs, hdecl⟩
    obtain rfl := Option.some.inj ((get?_of_mem hr).symm.trans hs)
    exact hdecl

/-- **The first namespace of a table that declares a type is the one that comes first among the
names of the records.** -/
theorem Represents.head?_declaring (h : Represents t rs) (id : Json) :
    (t.declaring id).head? = (rs.map Record.name).find? fun n => n ∈ t.declaring id := by
  have hlist : t.declaring id =
      Keyed.distinct some ((rs.map Record.name).filter fun n => n ∈ t.declaring id) := by
    rw [Keyed.distinct_filter_of_key fun a b hab => by rw [Option.some.inj hab], ← h.names]
    exact declaring_eq_filter t id
  rw [← List.head?_filter]
  conv_lhs => rw [hlist]
  cases (rs.map Record.name).filter fun n => n ∈ t.declaring id with
  | nil => rfl
  | cons n ns => rw [Keyed.distinct_cons, List.head?_cons, List.head?_cons]

/-! ## What the source says -/

/-- A namespace that is not ignored has a record that declares a type of this name. -/
def Declared (rs : List Record) (ignored : Ignored) (id : Json) (name : String) : Prop :=
  ignored.covers name = false ∧ ∃ r ∈ rs, r.name = name ∧ r.declares id = true

instance (rs : List Record) (ignored : Ignored) (id : Json) (name : String) :
    Decidable (Declared rs ignored id name) := inferInstanceAs (Decidable (_ ∧ _))

/-- The place of the first record of a namespace. -/
def firstPlace (rs : List Record) (name : String) : Nat := (rs.map Record.name).idxOf name

/-- Where a reference from the namespace `current` points, by the order of the records. -/
inductive FollowsSource (rs : List Record) (ignored : Ignored) (id : Json) (current : String) :
    Option String → Prop
  | current : Declared rs ignored id current → FollowsSource rs ignored id current (some current)
  | earliest {name : String} : ¬ Declared rs ignored id current → Declared rs ignored id name →
    (∀ other, Declared rs ignored id other → firstPlace rs name ≤ firstPlace rs other) →
    FollowsSource rs ignored id current (some name)
  | nowhere : (∀ name, ¬ Declared rs ignored id name) → FollowsSource rs ignored id current none

/-- Namespaces of records whose first records are at the same place are the same. -/
theorem Declared.eq_of_firstPlace {m n : String} (hm : Declared rs ignored id m)
    (h : firstPlace rs m = firstPlace rs n) : m = n := by
  obtain ⟨-, r, hr, rfl, -⟩ := hm
  exact (List.idxOf_inj (List.mem_map_of_mem hr)).mp h

/-- A reference points to one place. -/
theorem FollowsSource.unique {a b : Option String} (ha : FollowsSource rs ignored id current a)
    (hb : FollowsSource rs ignored id current b) : a = b := by
  cases ha with
  | current hcurrent =>
    cases hb with
    | current => rfl
    | earliest hnot => exact absurd hcurrent hnot
    | nowhere hnone => exact absurd hcurrent (hnone _)
  | earliest hnot hm hfirst =>
    cases hb with
    | current hcurrent => exact absurd hcurrent hnot
    | earliest _ hn hfirst' =>
      -- each of the two namespaces comes first, so they stand at one place
      have hplace := Nat.le_antisymm (hfirst _ hn) (hfirst' _ hm)
      rw [hm.eq_of_firstPlace hplace]
    | nowhere hnone => exact absurd hm (hnone _)
  | nowhere hnone =>
    cases hb with
    | current hcurrent => exact absurd hcurrent (hnone _)
    | earliest _ hn => exact absurd hn (hnone _)
    | nowhere => rfl

/-- What is found first stands before everything of its kind. -/
theorem idxOf_le_of_find? {kind : String → Bool} {ks : List String} {m n : String}
    (hm : ks.find? kind = some m) (hn : kind n = true) : ks.idxOf m ≤ ks.idxOf n := by
  induction ks with
  | nil => cases hm
  | cons k ks ih =>
    by_cases hk : kind k = true
    · rw [List.find?_cons_of_pos hk, Option.some.injEq] at hm
      rw [hm, List.idxOf_cons_self]
      exact Nat.zero_le _
    · rw [List.find?_cons_of_neg hk] at hm
      -- the head is not of the kind, so it is none of the two
      have hkm : k ≠ m := by
        rintro rfl
        exact hk (List.find?_some hm)
      have hkn : k ≠ n := by
        rintro rfl
        exact hk hn
      rw [List.idxOf_cons_ne ks hkm, List.idxOf_cons_ne ks hkn]
      exact Nat.succ_le_succ (ih hm)

/-- A record that remains declares what it has declared before. -/
theorem mem_remaining_declares {name : String} :
    (∃ r ∈ remaining ignored rs, r.name = name ∧ r.declares id = true) ↔
      Declared rs ignored id name := by
  constructor
  · rintro ⟨r, hr, rfl, hdecl⟩
    obtain ⟨s, hs, rfl⟩ := List.mem_map.mp hr
    obtain ⟨hs, hkept⟩ := List.mem_filter.mp hs
    exact ⟨by simpa [Record.withoutDelete] using hkept, s, hs, rfl, hdecl⟩
  · rintro ⟨hkept, r, hr, rfl, hdecl⟩
    exact ⟨r.withoutDelete, List.mem_map_of_mem (List.mem_filter.mpr ⟨hr, by simpa using hkept⟩),
      rfl, hdecl⟩

/-- Leaving out the ignored namespaces does not change which of the others is first. -/
theorem find?_names_remaining {kind : String → Bool}
    (h : ∀ n, kind n = true → ignored.covers n = false) :
    ((remaining ignored rs).map Record.name).find? kind = (rs.map Record.name).find? kind := by
  have hnames : (remaining ignored rs).map Record.name =
      (rs.map Record.name).filter fun n => !ignored.covers n := by
    rw [remaining, List.map_map, List.filter_map]
    rfl
  rw [hnames, List.find?_filter]
  refine congrArg (List.find? · _) (funext fun n => ?_)
  by_cases hn : kind n = true
  · simp [hn, h n hn]
  · simp [hn]

/-- **A table that is built resolves references as the source says.** -/
theorem followsSource_resolve (h : Represents t (remaining ignored rs)) :
    FollowsSource rs ignored id current (t.resolve current id) := by
  have hmem : ∀ n, n ∈ t.declaring id ↔ Declared rs ignored id n :=
    fun n => h.mem_declaring.trans mem_remaining_declares
  rw [resolve_eq]
  split
  case isTrue hcurrent => exact .current ((hmem current).mp hcurrent)
  case isFalse hcurrent =>
    rw [h.head?_declaring, find?_names_remaining fun n hn =>
      ((hmem n).mp (of_decide_eq_true hn)).1]
    -- the first namespace of the table is the first in the source
    cases hfind : (rs.map Record.name).find? fun n => n ∈ t.declaring id with
    | none =>
      refine .nowhere fun n hn => ?_
      obtain ⟨r, hr, hname, -⟩ := hn.2
      have hnames : n ∈ rs.map Record.name := List.mem_map.mpr ⟨r, hr, hname⟩
      exact List.find?_eq_none.mp hfind n hnames (decide_eq_true ((hmem n).mpr hn))
    | some m =>
      have hm : m ∈ t.declaring id := by simpa using List.find?_some hfind
      refine .earliest (mt (hmem current).mpr hcurrent) ((hmem m).mp hm) fun n hn => ?_
      exact idxOf_le_of_find? hfind (decide_eq_true ((hmem n).mpr hn))

/--
**Resolution follows the order of the source.**

Where records can be merged, their table is built, and a reference from any namespace resolves
in it to where the records say: to the current namespace if this is not ignored and some record
of it, wherever that comes, declares the type; otherwise, of the namespaces that are not ignored
and have some record which declares the type, to the one whose first record comes first; and to
none exactly if there is no such namespace.
-/
theorem resolve_iff_followsSource (h : Mergeable rs) (ignored : Ignored) (current : String)
    (id : Json) :
    ∃ t, build rs ignored = .ok t ∧
      ∀ found, t.resolve current id = found ↔ FollowsSource rs ignored id current found := by
  obtain ⟨u, hu⟩ := exists_ofRecords_iff.mpr h
  have hrep := (represents_of_ofRecords hu).remaining ignored
  refine ⟨_, build_eq_ok.mpr ⟨u, hu, rfl⟩, fun found => ⟨?_, fun hfound => ?_⟩⟩
  · rintro rfl
    exact followsSource_resolve hrep
  · exact (followsSource_resolve hrep).unique hfound

/-- Records of four namespaces in no good order. Of those that are not about the past, the windows
come first, but the tabs are the first to say what a tab is. -/
def mixedRecords : List Record :=
  [{ name := "legacy", types := [⟨{ id := .str "Tab" }, .any⟩] },
   { name := "windows" },
   { name := "tabs", types := [⟨{ id := .str "Tab" }, .any⟩] },
   { name := "menus" },
   { name := "windows", types := [⟨{ id := .str "Tab" }, .string none⟩] }]

theorem resolve_iff_followsSource_mixed :
    Mergeable mixedRecords ∧
      FollowsSource mixedRecords (.listed ["legacy"]) (.str "Tab") "menus" (some "windows") ∧
      ∃ t, build mixedRecords (.listed ["legacy"]) = .ok t ∧
        ∀ found, t.resolve "menus" (.str "Tab") = found ↔
          FollowsSource mixedRecords (.listed ["legacy"]) (.str "Tab") "menus" found := by
  have hmergeable : Mergeable mixedRecords := by unfold Mergeable; decide
  have hfirst : ∀ other, Declared mixedRecords (.listed ["legacy"]) (.str "Tab") other →
      firstPlace mixedRecords "windows" ≤ firstPlace mixedRecords other := by
    rintro other ⟨hkept, r, hr, rfl, -⟩
    simp only [mixedRecords, List.mem_cons, List.not_mem_nil, or_false] at hr
    rcases hr with rfl | rfl | rfl | rfl | rfl
    · exact absurd hkept (by decide)
    all_goals decide
  exact ⟨hmergeable, .earliest (by decide) (by decide) hfirst,
    resolve_iff_followsSource hmergeable (.listed ["legacy"]) "menus" (.str "Tab")⟩

end Table

end Typings
