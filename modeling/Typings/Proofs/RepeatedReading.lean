import Typings.Proofs.RepeatedMembers

/-!
# Records that are read twice

Each kind of member meets an old record that comes again in its own way. A function is moved to the
front, but so are all others behind it. An event replaces itself, a property keeps its place and
takes the value it has, a type of a name that is there already is dropped, and so is a description.
Only a nameless type is not recognized, and comes once more.

Merging is associative, so reading a list of records twice is merging what each namespace says with
itself. What a single record says twice would be thinned out only then, so such a namespace must
not say anything twice.
-/

namespace Typings.Keyed

variable {α κ : Type} [DecidableEq κ]

/-- Of a list that comes twice, only members without a key are left of the second one. -/
theorem distinct_append_self (key : α → Option κ) (as : List α) :
    distinct key (as ++ as) =
      distinct key as ++ (distinct key as).filter fun a => key a = none := by
  rw [distinct_append]
  refine congrArg (distinct key as ++ ·) (List.filter_congr fun a ha => ?_)
  cases hk : key a with
  | none =>
    rw [isFresh_none hk]
    rfl
  | some k =>
    have hmem : k ∈ as.filterMap key := List.mem_filterMap.mpr ⟨a, mem_of_mem_distinct ha, hk⟩
    rw [isFresh_some hk]
    simp [hmem]

/-- Thinning out leaves all members without a key. -/
theorem filter_keyless_distinct (key : α → Option κ) (as : List α) :
    (distinct key as).filter (fun a => key a = none) = as.filter fun a => key a = none := by
  have hkeys : (as.filter fun a => key a = none).filterMap key = [] := by
    refine List.filterMap_eq_nil_iff.mpr fun a ha => ?_
    simpa using (List.mem_filter.mp ha).2
  rw [← distinct_filter_of_key (fun a b h => by rw [h]),
    distinct_of_nodup (by rw [hkeys]; exact List.nodup_nil)]

/-- Names that come twice come where they came first. -/
theorem distinct_some_append_self (ks : List κ) :
    distinct some (ks ++ ks) = distinct some ks := by
  rw [distinct_append_self]
  simp

theorem putAll_self {key : α → κ} {as : List α} (h : (as.map key).Nodup) :
    putAll key as as = as := by
  refine eq_of_find?_eq (nodup_map_putAll as h) ?_ fun k => ?_
  · rw [map_putAll h, distinct_some_append_self, distinct_some_of_nodup h]
  · rw [find?_putAll, find?_reverse h, Option.or_self]

end Typings.Keyed

namespace Typings.Schema.Record

/-! ## A record with itself -/

/-- The nameless types of some records, from the oldest record on. -/
def namelessTypes (rs : List Record) : List Node :=
  (rs.flatMap Record.types).filter fun n => n.typeKey = none

/-- The record with more types behind its own. -/
def withTypes (more : List Node) (r : Record) : Record := { r with types := r.types ++ more }

@[simp] theorem name_withTypes (more : List Node) (r : Record) : (r.withTypes more).name = r.name :=
  rfl

/-- **A record that says nothing twice is merged with itself** as it is, but for its nameless
types. -/
theorem merge_self {r : Record} (htypes : r.HasTypesOnce) (hfunctions : r.HasFunctionsOnce) :
    r.merge r = r.withTypes (namelessTypes [r]) := by
  apply Record.ext
  case name => rfl
  case description => exact ite_self _
  case functions =>
    have hkeys : (r.functions.filterMap fun c => some c.functionKey).Nodup := by
      rwa [List.filterMap_eq_map']
    show Keyed.distinct _ (r.functions ++ r.functions) = r.functions
    rw [Keyed.distinct_append_self, Keyed.distinct_of_nodup hkeys]
    simp
  case events =>
    -- each event is replaced by itself
    have hreplaced :
        r.events.filter (fun e => e.eventKey ∉ r.events.map Callable.eventKey) = [] := by
      refine List.filter_eq_nil_iff.mpr fun e he => ?_
      simpa using ⟨e, he, rfl⟩
    show r.events ++ r.events.filter _ = r.events
    rw [hreplaced, List.append_nil]
  case types =>
    show Keyed.distinct _ (r.types ++ r.types) = r.types ++ namelessTypes [r]
    rw [Keyed.distinct_append_self, Keyed.distinct_of_nodup htypes, namelessTypes,
      List.flatMap_singleton]
  case properties => exact Keyed.putAll_self r.nodup

/-- Merging loses no nameless type, and keeps their order. -/
theorem namelessTypes_mergeAll {rs : List Record} {m : Record} (h : mergeAll rs = some m) :
    namelessTypes [m] = namelessTypes rs := by
  have hsays := (says_mergeAll h).types []
  rw [List.append_nil, List.append_nil] at hsays
  rw [namelessTypes, namelessTypes, List.flatMap_singleton, ← Keyed.filter_keyless_distinct, hsays,
    Keyed.filter_keyless_distinct]

/-- **What records say when they come twice**: what they say when they come once, and their
nameless types once more. -/
theorem mergeAll_append_self {rs : List Record} {m : Record} (h : mergeAll rs = some m)
    (honce : ∀ r, rs = [r] → r.HasTypesOnce ∧ r.HasFunctionsOnce) :
    mergeAll (rs ++ rs) = some (m.withTypes (namelessTypes rs)) := by
  obtain ⟨htypes, hfunctions⟩ := (hasOnce_mergeAll_iff h).mpr honce
  rw [mergeAll_append, h, Option.merge_some_some, merge_self htypes hfunctions,
    namelessTypes_mergeAll h]

end Typings.Schema.Record

namespace Typings.Table

open Schema (Record)

/-- The table in which every namespace has the nameless types of its records once more. -/
def withNameless (rs : List Record) (t : Table) : Table :=
  t.map (fun r => r.withTypes (Record.namelessTypes (group r.name rs)))
    fun r => Record.name_withTypes _ r

/--
**Reading records twice changes nothing but nameless types.**

The records make a table, and the records followed by themselves make the same one, with the same
namespaces in the same order, but that each namespace has its nameless types once more, behind all
others and in source order. A namespace of a single record must not say anything twice in it.
-/
theorem ofRecords_append_self {rs : List Record} (hkeys : ∀ r ∈ rs, r.hasKeys = true)
    (honce : ∀ r, group r.name rs = [r] → r.HasTypesOnce ∧ r.HasFunctionsOnce) :
    ∃ t, ofRecords rs = .ok t ∧ ofRecords (rs ++ rs) = .ok (t.withNameless rs) := by
  obtain ⟨t, ht, hrep⟩ := represents_ofRecords hkeys
  have hkeys' : ∀ r ∈ rs ++ rs, r.hasKeys = true := by
    intro r hr
    rcases List.mem_append.mp hr with hr | hr <;> exact hkeys r hr
  obtain ⟨u, hu, hrep'⟩ := represents_ofRecords hkeys'
  have hsame : u = t.withNameless rs := by
    -- two tables are the same if they have the same names and find the same record for each
    refine eq_of_get?_eq ?_ fun name => ?_
    · have hnames : (t.withNameless rs).names = t.names := by
        simp [withNameless, Table.map, names]
      rw [hnames, hrep'.names, hrep.names, List.map_append, Keyed.distinct_some_append_self]
    · rw [withNameless, get?_map, hrep'.get, group_append]
      cases hm : Record.mergeAll (group name rs) with
      | none =>
        rw [hrep.get, hm, Record.eq_nil_of_mergeAll hm]
        rfl
      | some m =>
        have hget := (hrep.get name).trans hm
        have hname := name_of_get? hget
        -- a namespace of one record is merged with a copy of itself
        have hgroup : ∀ r, group name rs = [r] → r.HasTypesOnce ∧ r.HasFunctionsOnce := by
          intro r hr
          have hmem : r ∈ group name rs := hr ▸ List.mem_singleton_self r
          exact honce r ((mem_group.mp hmem).2.symm ▸ hr)
        rw [hget, Record.mergeAll_append_self hm hgroup, Option.map_some, hname]
  exact ⟨t, ht, hsame ▸ hu⟩

/-- Two records of one namespace, and one of another that has nameless types. -/
def twoNamespaces : List Record :=
  mailRecords ++ [{ name := "tabs"
                    types := [⟨{ extends? := .str "Tab" }, .any⟩, ⟨{ id := .str "Tab" }, .boolean⟩,
                      ⟨{}, .boolean⟩]
                    functions := [plainEvent "get" true .null, plainEvent "get" false .null]
                    properties := [⟨"limit", ⟨{}, .number true⟩⟩] }]

theorem ofRecords_append_self_mail :
    ∃ t, ofRecords twoNamespaces = .ok t ∧
      ofRecords (twoNamespaces ++ twoNamespaces) = .ok (t.withNameless twoNamespaces) ∧
      t.names = ["mail", "tabs"] ∧
      Record.namelessTypes (group "mail" twoNamespaces) =
        [⟨{ extends? := .str "Folder" }, .any⟩] ∧
      Record.namelessTypes (group "tabs" twoNamespaces) =
        [⟨{ extends? := .str "Tab" }, .any⟩, ⟨{}, .boolean⟩] := by
  have hkeys : ∀ r ∈ twoNamespaces, r.hasKeys = true := by decide
  have honce : ∀ r, group r.name twoNamespaces = [r] → r.HasTypesOnce ∧ r.HasFunctionsOnce := by
    intro r hr
    have hmem : r ∈ twoNamespaces := (mem_group.mp (hr ▸ List.mem_singleton_self r)).1
    have hlength := congrArg List.length hr
    simp only [twoNamespaces, mailRecords, List.cons_append, List.nil_append, List.mem_cons,
      List.not_mem_nil, or_false] at hmem
    -- two records are of one namespace, so neither is alone in its group
    rcases hmem with rfl | rfl | rfl
    · exact absurd hlength (by decide)
    · exact absurd hlength (by decide)
    · exact ⟨by unfold Record.HasTypesOnce; decide, by unfold Record.HasFunctionsOnce; decide⟩
  obtain ⟨t, ht, hself⟩ := ofRecords_append_self hkeys honce
  refine ⟨t, ht, hself, ?_, by cbv, by cbv⟩
  rw [(represents_of_ofRecords ht).names]
  decide

end Typings.Table
