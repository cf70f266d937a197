import Typings.Proofs.Grouping

/-!
# Records can be merged chunk by chunk

A list of records is cut into consecutive chunks, each chunk is made into a table of its
own, and the records of these tables are made into a table again. It is the table of the
whole list, whatever the cut: what a chunk's table has under a name is what the chunk says
about it, and by associativity it does not matter that this was merged on its own.

The induction is on the list of chunks and keeps three facts: which names the tables have, what is
said under each name, and that keys can be formed wherever they could be formed of the records.
-/

namespace Typings.Table

open Schema (Record)

/-- Every chunk of records with keys has a table. -/
theorem represents_chunks {chunks : List (List Record)}
    (hkeys : ∀ c ∈ chunks, ∀ r ∈ c, r.hasKeys = true) :
    ∃ ts, chunks.mapM ofRecords = .ok ts ∧ List.Forall₂ Represents ts chunks := by
  induction chunks with
  | nil => exact ⟨[], rfl, .nil⟩
  | cons c chunks ih =>
    obtain ⟨t, ht, hrep⟩ := represents_ofRecords (hkeys c List.mem_cons_self)
    obtain ⟨ts, hts, hreps⟩ := ih (fun d hd => hkeys d (List.mem_cons_of_mem c hd))
    refine ⟨t :: ts, ?_, .cons hrep hreps⟩
    rw [List.mapM_cons, ht, hts]
    rfl

/-- The namespaces of the tables, in order, are those of the chunks. -/
theorem names_chunks {ts : List Table} {chunks : List (List Record)}
    (h : List.Forall₂ Represents ts chunks) :
    (ts.flatMap records).map Record.name =
      chunks.flatMap fun c => Keyed.distinct some (c.map Record.name) := by
  induction h with
  | nil => rfl
  | cons ht _ ih =>
    rw [List.flatMap_cons, List.flatMap_cons, List.map_append, ih]
    exact congrArg (· ++ _) ht.names

/-- What the tables have under one name, in order, is what the chunks say about it. -/
theorem group_chunks {ts : List Table} {chunks : List (List Record)}
    (h : List.Forall₂ Represents ts chunks) (name : String) :
    group name (ts.flatMap records) = (chunks.map (group name)).filterMap Record.mergeAll := by
  induction h with
  | nil => rfl
  | @cons t c ts chunks ht _ ih =>
    rw [List.flatMap_cons, group_append, ih, group_records, ht.get, List.map_cons,
      Keyed.filterMap_cons_toList]

/-- **A table of tables of chunks represents the whole list.** -/
theorem Represents.flatten {t : Table} {ts : List Table} {chunks : List (List Record)}
    (ht : Represents t (ts.flatMap records)) (h : List.Forall₂ Represents ts chunks) :
    Represents t chunks.flatten where
  names := by
    rw [ht.names, names_chunks h, Keyed.distinct_flatMap_distinct, List.map_flatten,
      List.flatMap_def]
  get := by
    intro name
    rw [ht.get, group_chunks h, Record.mergeAll_flatten, group_flatten]

/-- The records of the tables of chunks have keys like the records of the chunks. -/
theorem hasKeys_chunks {ts : List Table} {chunks : List (List Record)}
    (h : List.Forall₂ Represents ts chunks) (hkeys : ∀ c ∈ chunks, ∀ r ∈ c, r.hasKeys = true) :
    ∀ r ∈ ts.flatMap records, r.hasKeys = true := by
  induction h with
  | nil => intro r hr; exact absurd hr (by simp)
  | @cons t c ts chunks ht _ ih =>
    intro r hr
    rw [List.flatMap_cons] at hr
    rcases List.mem_append.mp hr with hr | hr
    · exact hasKeys_of_represents ht (hkeys c List.mem_cons_self) r hr
    · exact ih (fun d hd => hkeys d (List.mem_cons_of_mem c hd)) r hr

/--
**Merging is associative over whole runs.**

However a list of records is cut into consecutive chunks, each chunk has a table, and the
records of these tables in a row make exactly the table of the whole list.
-/
theorem ofRecords_chunks {rs : List Record} {chunks : List (List Record)}
    (hcut : chunks.flatten = rs) (hkeys : ∀ r ∈ rs, r.hasKeys = true) :
    ∃ ts t, chunks.mapM ofRecords = .ok ts ∧ ofRecords (ts.flatMap records) = .ok t ∧
      ofRecords rs = .ok t := by
  have hchunks : ∀ c ∈ chunks, ∀ r ∈ c, r.hasKeys = true := fun c hc r hr =>
    hkeys r (hcut ▸ List.mem_flatten_of_mem hc hr)
  obtain ⟨ts, hts, hreps⟩ := represents_chunks hchunks
  obtain ⟨t, ht, hrep⟩ := represents_ofRecords (hasKeys_chunks hreps hchunks)
  obtain ⟨u, hu, hrep'⟩ := represents_ofRecords hkeys
  refine ⟨ts, t, hts, ht, ?_⟩
  rw [hu, hrep'.unique (hcut ▸ hrep.flatten hreps)]

/-- A record that says the same function twice and has a type without a name. -/
def tabsRecord : Record where
  name := "tabs"
  functions := List.replicate 2 ⟨.str "get", .bool false, .null, [], none, .bool false, false⟩
  events := [⟨.str "onUpdated", .bool false, .null, [], none, .bool false, false⟩]
  types := [⟨{ id := .str "Tab" }, .any⟩, ⟨{ extends? := .str "Tab" }, .any⟩]
  properties := [⟨"NONE", ⟨{}, .constant (.int (-1))⟩⟩]

theorem ofRecords_chunks_tabs :
    [[tabsRecord, { name := "menus" }], [], [tabsRecord]].flatten =
        [tabsRecord, { name := "menus" }, tabsRecord] ∧
      (∀ r ∈ [tabsRecord, { name := "menus" }, tabsRecord], r.hasKeys = true) ∧
      ∃ ts t, [[tabsRecord, { name := "menus" }], [], [tabsRecord]].mapM ofRecords = .ok ts ∧
        ofRecords (ts.flatMap records) = .ok t ∧
        ofRecords [tabsRecord, { name := "menus" }, tabsRecord] = .ok t :=
  ⟨rfl, by decide, ofRecords_chunks rfl (by decide)⟩

end Typings.Table
