import Typings.Proofs.MergeContents
import Typings.Proofs.MergeableRecords

/-!
# What a namespace says twice

Members are compared with each other only when records are merged. So a namespace that one
record describes says twice what that record says twice, and one that several records describe
has every function and every name of a type once.

Events are another matter. They are compared by convention and name, and an event only with
those of newer records. So two events of one name are left if they differ in their convention,
or if they stand in the same record and no newer record replaces them.
-/

namespace Typings.Schema.Record

/-! ## Types and functions -/

/-- No two types of the record have the same name. -/
def HasTypesOnce (r : Record) : Prop := (r.types.filterMap Node.typeKey).Nodup

/-- No two functions of the record agree in name, convention and parameters. -/
def HasFunctionsOnce (r : Record) : Prop := (r.functions.map Callable.functionKey).Nodup

/-- The name of an event, as events are compared by it. -/
def eventName (e : Callable) : Json := e.eventKey.name

/-- The record says nothing twice: its types have different names, its functions differ in name,
convention or parameters, and its events have different names. -/
structure SaysOnce (r : Record) : Prop where
  types : r.HasTypesOnce
  functions : r.HasFunctionsOnce
  events : (r.events.map eventName).Nodup

theorem hasTypesOnce_merge (older newer : Record) : (older.merge newer).HasTypesOnce :=
  Keyed.nodup_keys_distinct Node.typeKey (older.types ++ newer.types)

theorem hasFunctionsOnce_merge (older newer : Record) : (older.merge newer).HasFunctionsOnce := by
  have h := Keyed.nodup_keys_distinct (fun c : Callable => some c.functionKey)
    (newer.functions ++ older.functions)
  rwa [List.filterMap_eq_map'] at h

/-! ## Events -/

/-- The keys of all events of some records. -/
def eventKeys (rs : List Record) : List EventKey :=
  rs.flatMap fun r => r.events.map Callable.eventKey

theorem mem_eventKeys_cons {r : Record} {rs : List Record} {k : EventKey} :
    k ∈ eventKeys (r :: rs) ↔ k ∈ r.events.map Callable.eventKey ∨ k ∈ eventKeys rs := by
  rw [eventKeys, List.flatMap_cons, List.mem_append]
  rfl

/-- The events that records leave, from the oldest record to the newest: those of the newer
records, and behind them those of the first one that are not replaced. -/
def remainingEvents : List Record → List Callable
  | [] => []
  | r :: newer => remainingEvents newer ++ r.events.filter fun e => e.eventKey ∉ eventKeys newer

/-- No key is lost. -/
theorem mem_eventKeys_remainingEvents {rs : List Record} {k : EventKey} :
    k ∈ (remainingEvents rs).map Callable.eventKey ↔ k ∈ eventKeys rs := by
  induction rs with
  | nil => rfl
  | cons r newer ih =>
    rw [remainingEvents, List.map_append, List.mem_append, ih, mem_eventKeys_cons, or_comm]
    by_cases hk : k ∈ eventKeys newer
    · exact ⟨fun _ => .inr hk, fun _ => .inr hk⟩
    · -- an event is replaced only by one with its own key
      refine or_congr_left ?_
      simp only [List.mem_map, List.mem_filter, decide_eq_true_eq]
      constructor
      · rintro ⟨e, ⟨he, -⟩, rfl⟩
        exact ⟨e, he, rfl⟩
      · rintro ⟨e, he, rfl⟩
        exact ⟨e, ⟨he, hk⟩, rfl⟩

/-- Nor is any name. -/
theorem mem_eventNames_remainingEvents {rs : List Record} {name : Json} :
    name ∈ (remainingEvents rs).map eventName ↔ name ∈ (eventKeys rs).map EventKey.name := by
  have hnames : (remainingEvents rs).map eventName =
      ((remainingEvents rs).map Callable.eventKey).map EventKey.name := by
    rw [List.map_map]
    rfl
  simp only [hnames, List.mem_map (f := EventKey.name), mem_eventKeys_remainingEvents]

/-- **What several records say together has the events that they leave.** -/
theorem events_mergeAll {rs : List Record} {m : Record} (h : mergeAll rs = some m) :
    m.events = remainingEvents rs := by
  induction rs generalizing m with
  | nil => cases h
  | cons r newer ih =>
    rw [← List.singleton_append, mergeAll_append, mergeAll_singleton] at h
    cases hnewer : mergeAll newer with
    | none =>
      -- there is nothing newer, so nothing is replaced
      rw [hnewer, Option.merge_none_right, Option.some.injEq] at h
      rw [eq_nil_of_mergeAll hnewer, remainingEvents, remainingEvents, List.nil_append, ← h]
      exact (List.filter_eq_self.mpr fun e _ => decide_eq_true List.not_mem_nil).symm
    | some a =>
      rw [hnewer, Option.merge_some_some, Option.some.injEq] at h
      rw [← h, remainingEvents, ← ih hnewer]
      refine congrArg (a.events ++ ·) (List.filter_congr fun e _ => decide_eq_decide.mpr ?_)
      rw [ih hnewer, mem_eventKeys_remainingEvents]

/-- The events of `r` stand beside no others of the same name once newer records have been
merged into it. -/
structure HasEventsOnce (r : Record) (newer : List Record) : Prop where
  /-- An event that shares its name with a newer one is replaced. -/
  replaced : ∀ e ∈ r.events, eventName e ∈ (eventKeys newer).map EventKey.name →
    e.eventKey ∈ eventKeys newer
  /-- No two of the events that are not replaced share a name. -/
  remaining : ((r.events.filter fun e => e.eventKey ∉ eventKeys newer).map eventName).Nodup

/-- **The events that records leave have different names exactly if this is so at every
record.** -/
theorem nodup_remainingEvents_iff {rs : List Record} :
    ((remainingEvents rs).map eventName).Nodup ↔
      ∀ r newer, r :: newer <:+ rs → HasEventsOnce r newer := by
  induction rs with
  | nil => simp [remainingEvents]
  | cons s rs ih =>
    rw [remainingEvents, List.map_append, List.nodup_append, ih]
    constructor
    · rintro ⟨hnewer, hremaining, hdisjoint⟩ r newer hsuffix
      rcases List.suffix_cons_iff.mp hsuffix with heq | hsuffix
      · obtain ⟨rfl, rfl⟩ := List.cons.inj heq
        refine ⟨fun e he hname => ?_, hremaining⟩
        -- an event that is not replaced stays, beside one of the same name
        by_contra hkey
        have hkept : eventName e ∈ (r.events.filter fun e => e.eventKey ∉ eventKeys newer).map
            eventName :=
          List.mem_map_of_mem (List.mem_filter.mpr ⟨he, decide_eq_true hkey⟩)
        exact hdisjoint _ (mem_eventNames_remainingEvents.mpr hname) _ hkept rfl
      · exact hnewer r newer hsuffix
    · intro h
      have hself := h s rs List.suffix_rfl
      refine ⟨fun r newer hsuffix => h r newer (hsuffix.trans (List.suffix_cons s rs)),
        hself.remaining, ?_⟩
      rintro name hname _ hkept rfl
      -- an event that stays has no newer one of its name
      obtain ⟨e, he, rfl⟩ := List.mem_map.mp hkept
      obtain ⟨he, hkey⟩ := List.mem_filter.mp he
      exact of_decide_eq_true hkey (hself.replaced e he (mem_eventNames_remainingEvents.mp hname))

/-- What several records say together has every type and function once, and what a single one says
is left as it is. -/
theorem hasOnce_mergeAll_iff {rs : List Record} {m : Record} (h : mergeAll rs = some m) :
    m.HasTypesOnce ∧ m.HasFunctionsOnce ↔
      ∀ r, rs = [r] → r.HasTypesOnce ∧ r.HasFunctionsOnce := by
  cases rs using List.reverseRecOn with
  | nil => cases h
  | append_singleton rs s =>
    rcases mergeAll_concat_cases h with ⟨rfl, rfl⟩ | ⟨a, ha, rfl⟩
    · simp
    · -- the last merge thins out types and functions
      refine iff_of_true ⟨hasTypesOnce_merge a s, hasFunctionsOnce_merge a s⟩ fun r hr => ?_
      obtain rfl : rs = [] := by simpa using congrArg List.dropLast hr
      cases ha

/-- **When the records of a namespace together say nothing twice.** -/
theorem saysOnce_mergeAll_iff {rs : List Record} {m : Record} (h : mergeAll rs = some m) :
    m.SaysOnce ↔ (∀ r, rs = [r] → r.HasTypesOnce ∧ r.HasFunctionsOnce) ∧
      ∀ r newer, r :: newer <:+ rs → HasEventsOnce r newer := by
  rw [← hasOnce_mergeAll_iff h, ← nodup_remainingEvents_iff, ← events_mergeAll h]
  exact ⟨fun hm => ⟨⟨hm.types, hm.functions⟩, hm.events⟩,
    fun ⟨⟨htypes, hfunctions⟩, hevents⟩ => ⟨htypes, hfunctions, hevents⟩⟩

end Typings.Schema.Record

namespace Typings.Table

open Schema (Record)

/--
**When a namespace of a table says something twice.**

The types of a namespace have different names, and its functions differ in name, convention or
parameters, unless a single record describes it that says one of them twice. Its events have
different names exactly if, in each of its records, every event is replaced that shares its name
with one of a newer record, and those that are not replaced have different names.
-/
theorem ofRecords_saysOnce_iff {rs : List Record} {t : Table} (h : ofRecords rs = .ok t)
    {r : Record} (hr : r ∈ t.records) :
    r.SaysOnce ↔
      (∀ s, group r.name rs = [s] → s.HasTypesOnce ∧ s.HasFunctionsOnce) ∧
        ∀ s newer, s :: newer <:+ group r.name rs → s.HasEventsOnce newer := by
  have hget := (represents_of_ofRecords h).get r.name
  rw [get?_of_mem hr] at hget
  exact Record.saysOnce_mergeAll_iff hget.symm

/-- An event of this name, convention and description. -/
def plainEvent (name : String) (async : Bool) (description : Json) : Schema.Callable :=
  ⟨.str name, .bool async, description, [], none, .bool false, false⟩

/-- Two records of a namespace that share a type, a function and an event. -/
def mailRecords : List Record :=
  [{ name := "mail"
     types := [⟨{ id := .str "Folder" }, .any⟩, ⟨{ extends? := .str "Folder" }, .any⟩]
     functions := [plainEvent "send" true .null]
     events := [plainEvent "onSent" false .null, plainEvent "onDeleted" false .null] },
   { name := "mail"
     types := [⟨{ id := .str "Folder" }, .boolean⟩]
     functions := [plainEvent "send" true (.str "newer")]
     events := [plainEvent "onSent" false (.str "newer")] }]

/-- What they say together. -/
def mailRecord : Record where
  name := "mail"
  types := [⟨{ id := .str "Folder" }, .any⟩, ⟨{ extends? := .str "Folder" }, .any⟩]
  functions := [plainEvent "send" true (.str "newer")]
  events := [plainEvent "onSent" false (.str "newer"), plainEvent "onDeleted" false .null]

theorem ofRecords_saysOnce_iff_mail :
    ∃ h : ([mailRecord].map Record.name).Nodup,
      ofRecords mailRecords = .ok ⟨[mailRecord], h⟩ ∧ mailRecord ∈ [mailRecord] ∧
      (mailRecord.SaysOnce ↔
        (∀ s, group "mail" mailRecords = [s] → s.HasTypesOnce ∧ s.HasFunctionsOnce) ∧
          ∀ s newer, s :: newer <:+ group "mail" mailRecords → s.HasEventsOnce newer) := by
  have hname : ([mailRecord].map Record.name).Nodup := List.pairwise_singleton _ _
  have hmerge : ofRecords mailRecords = .ok ⟨[mailRecord], hname⟩ := by cbv
  have hmem : mailRecord ∈ [mailRecord] := List.mem_singleton_self mailRecord
  exact ⟨hname, hmerge, hmem, ofRecords_saysOnce_iff hmerge hmem⟩

/-- Two records that share the name of an event, but not its convention. -/
def sentRecords : List Record :=
  [{ name := "mail", events := [plainEvent "onSent" false .null] },
   { name := "mail", events := [plainEvent "onSent" true .null] }]

/-- What they say together: two events of one name. -/
def sentRecord : Record where
  name := "mail"
  events := [plainEvent "onSent" true .null, plainEvent "onSent" false .null]

/-- An event stays beside a newer one of its name if their conventions differ. -/
theorem ofRecords_keeps_event :
    ¬ ∀ (rs : List Record) (t : Table), ofRecords rs = .ok t → ∀ r ∈ t.records, r.SaysOnce := by
  intro h
  have hmerge : ofRecords sentRecords = .ok ⟨[sentRecord], List.pairwise_singleton _ _⟩ := by cbv
  have honce : sentRecord.SaysOnce := h _ _ hmerge sentRecord (List.mem_singleton_self sentRecord)
  exact absurd honce.events (by decide)

end Typings.Table
