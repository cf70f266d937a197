import Typings.Proofs.DroppedNamespaces
import Typings.Proofs.MergeableRecords

/-!
# Removing before merging

A table is built by merging all records. Only then are the functions named `delete` removed and
the ignored namespaces dropped. Doing both to the records first gives the same table: functions
that are taken for the same have the same name, so they are removed together, and records of
different namespaces do not meet.

The proof compares what both tables say under each name. A group of records of one namespace either
remains as a whole or goes as a whole, and on a group that remains, leaving functions out commutes
with merging two records, and so with merging all of them.
-/

namespace Typings

open Schema (Callable Record)

namespace Schema.Record

/-- The record without its functions named `delete`. -/
def withoutDelete (r : Record) : Record :=
  { r with functions := r.functions.filter fun c => c.name ≠ .str "delete" }

/-- Functions with the same key are removed together. -/
theorem isDelete_of_functionKey {c d : Callable} (h : c.functionKey = d.functionKey) :
    c.name = .str "delete" ↔ d.name = .str "delete" := by
  have hname : c.name.canonical = d.name.canonical := congrArg FunctionKey.name h
  rw [← Json.canonical_eq_str, hname, Json.canonical_eq_str]

/-- **Removing functions commutes with merging.** -/
theorem withoutDelete_merge (a b : Record) :
    (a.merge b).withoutDelete = a.withoutDelete.merge b.withoutDelete := by
  apply Record.ext
  case functions =>
    show (Keyed.distinct _ (b.functions ++ a.functions)).filter _ =
      Keyed.distinct _ (b.functions.filter _ ++ a.functions.filter _)
    rw [← List.filter_append, Keyed.distinct_filter_of_key]
    exact fun c d h => decide_eq_decide.mpr
      (not_congr (isDelete_of_functionKey (Option.some.inj h)))
  all_goals rfl

/-- A change that commutes with merging two records commutes with merging many. -/
theorem mergeAll_map {f : Record → Record} (h : ∀ a b, f (a.merge b) = (f a).merge (f b))
    (rs : List Record) : mergeAll (rs.map f) = (mergeAll rs).map f := by
  induction rs using List.reverseRecOn with
  | nil => rfl
  | append_singleton rs r ih =>
    rw [List.map_append, List.map_singleton, mergeAll_concat, mergeAll_concat, ih]
    cases mergeAll rs with
    | none => rfl
    | some a =>
      show some ((f a).merge (f r)) = some (f (a.merge r))
      rw [h]

/-- What has keys has keys after functions have been removed. -/
theorem hasKeys_withoutDelete {r : Record} (h : r.hasKeys = true) :
    r.withoutDelete.hasKeys = true := by
  unfold hasKeys at h ⊢
  simp only [Bool.and_eq_true] at h ⊢
  obtain ⟨⟨hfunctions, hevents⟩, htypes⟩ := h
  refine ⟨⟨List.all_eq_true.mpr fun c hc => ?_, hevents⟩, htypes⟩
  exact List.all_eq_true.mp hfunctions c (List.mem_filter.mp hc).1

end Schema.Record

namespace Table

variable {rs : List Record} {ignored : Ignored} {t : Table}

/-- The records that are left without the ignored namespaces, and without the functions named
`delete`. -/
def remaining (ignored : Ignored) (rs : List Record) : List Record :=
  (rs.filter fun r => !ignored.covers r.name).map Record.withoutDelete

/-- The functions that cannot be declared are those named `delete`. -/
theorem records_removeFunctions (t : Table) :
    (t.removeFunctions undeclarable).records = t.records.map Record.withoutDelete := by
  refine List.map_congr_left fun r _ => ?_
  apply Record.ext
  case functions =>
    refine List.filter_congr fun c _ => ?_
    by_cases hname : c.name = .str "delete"
    · simp [hname, isNamed, undeclarable]
    · simp [hname, isNamed_undeclarable hname]
  all_goals rfl

theorem get?_removeFunctions (t : Table) (name : String) :
    (t.removeFunctions undeclarable).get? name = (t.get? name).map Record.withoutDelete := by
  unfold get?
  rw [records_removeFunctions]
  exact Keyed.find?_map (f := Record.withoutDelete) (fun _ => rfl) name t.records

/-- Of a namespace that is kept, all records remain. -/
theorem group_remaining {name : String} (h : ignored.covers name = false) (rs : List Record) :
    group name (remaining ignored rs) = (group name rs).map Record.withoutDelete := by
  unfold group remaining
  rw [List.filter_map, List.filter_filter]
  refine congrArg (List.map _) (List.filter_congr fun r _ => ?_)
  by_cases hname : r.name = name
  · simp [hname, h, Record.withoutDelete]
  · simp [hname, Record.withoutDelete]

/-- Of a namespace that is ignored, no record remains. -/
theorem group_remaining_eq_nil {name : String} (h : ignored.covers name = true)
    (rs : List Record) : group name (remaining ignored rs) = [] := by
  refine List.filter_eq_nil_iff.mpr fun r hr hname => ?_
  obtain ⟨s, hs, rfl⟩ := List.mem_map.mp hr
  have hkept := (List.mem_filter.mp hs).2
  rw [show s.name = name from of_decide_eq_true hname, h] at hkept
  cases hkept

/-- **What records say after the removal is said by the records that remain.** -/
theorem Represents.remaining (h : Represents t rs) (ignored : Ignored) :
    Represents ((t.removeFunctions undeclarable).dropIgnored ignored)
      (Table.remaining ignored rs) where
  names := by
    have hnames : (Table.remaining ignored rs).map Record.name =
        (rs.map Record.name).filter fun n => !ignored.covers n := by
      rw [Table.remaining, List.map_map, List.filter_map]
      rfl
    -- whether a record is kept depends on its namespace alone
    have hkeep : ∀ a b : String, some a = some b → (!ignored.covers a) = !ignored.covers b :=
      fun a b hab => by rw [Option.some.inj hab]
    rw [hnames, Keyed.distinct_filter_of_key hkeep, ← h.names]
    show ((t.removeFunctions undeclarable).records.filter _).map Record.name = _
    rw [records_removeFunctions, List.filter_map, List.map_map, Table.names, List.filter_map]
    rfl
  get := by
    intro name
    cases hname : ignored.covers name with
    | true =>
      rw [group_remaining_eq_nil hname, Record.mergeAll_nil]
      refine Keyed.find?_eq_none_iff.mpr fun hmem => ?_
      obtain ⟨r, hr, rfl⟩ := List.mem_map.mp hmem
      have hkept := (List.mem_filter.mp hr).2
      rw [hname] at hkept
      cases hkept
    | false =>
      -- functions named delete are left out before merging or after it
      rw [group_remaining hname, Record.mergeAll_map Record.withoutDelete_merge, ← h.get,
        get?_dropIgnored hname, get?_removeFunctions]

/-- Where records can be merged, those that remain can. -/
theorem Mergeable.remaining (h : Mergeable rs) (ignored : Ignored) :
    Mergeable (Table.remaining ignored rs) := by
  intro r hr hlen
  obtain ⟨s, hs, rfl⟩ := List.mem_map.mp hr
  obtain ⟨hs, hkept⟩ := List.mem_filter.mp hs
  rw [show s.withoutDelete.name = s.name from rfl, group_remaining (by simpa using hkept),
    List.length_map] at hlen
  exact Record.hasKeys_withoutDelete (h s hs hlen)

/--
**What is removed from a table can be removed from the records before.**

Where records can be merged, the table that is built from them is the table that the records
make that are left without the ignored namespaces and without the functions named `delete`.
-/
theorem build_eq_ofRecords_remaining (h : Mergeable rs) (ignored : Ignored) :
    ∃ t, build rs ignored = .ok t ∧ ofRecords (remaining ignored rs) = .ok t := by
  obtain ⟨u, hu⟩ := exists_ofRecords_iff.mpr h
  obtain ⟨t, ht⟩ := exists_ofRecords_iff.mpr (h.remaining ignored)
  have heq : (u.removeFunctions undeclarable).dropIgnored ignored = t :=
    ((represents_of_ofRecords hu).remaining ignored).unique (represents_of_ofRecords ht)
  exact ⟨t, build_eq_ok.mpr ⟨u, hu, heq.symm⟩, ht⟩

/-- A function of this name that takes nothing. -/
def plainFunction (name : String) : Callable :=
  ⟨.str name, .bool true, .null, [], none, .bool false, false⟩

/-- Two records of one namespace, each with a function to delete, and one of another. -/
def cookieRecords : List Record :=
  [{ name := "cookies", functions := [plainFunction "delete", plainFunction "get"] },
   { name := "tabs", functions := [plainFunction "get"] },
   { name := "cookies"
     functions := [plainFunction "get", plainFunction "delete", plainFunction "set"] }]

theorem build_eq_ofRecords_remaining_cookies :
    Mergeable cookieRecords ∧
      remaining (.listed ["tabs"]) cookieRecords =
        [{ name := "cookies", functions := [plainFunction "get"] },
         { name := "cookies", functions := [plainFunction "get", plainFunction "set"] }] ∧
      ∃ t, build cookieRecords (.listed ["tabs"]) = .ok t ∧
        ofRecords (remaining (.listed ["tabs"]) cookieRecords) = .ok t := by
  have hmergeable : Mergeable cookieRecords := by unfold Mergeable; decide
  exact ⟨hmergeable, rfl, build_eq_ofRecords_remaining hmergeable (.listed ["tabs"])⟩

end Table

end Typings
