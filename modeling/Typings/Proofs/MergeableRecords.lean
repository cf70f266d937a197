import Typings.Proofs.Grouping
import Typings.Proofs.Subnodes

/-!
# Which records make a table

Records are compared only when they are merged, so what cannot be part of a key does no harm in
a record that is the only one of its namespace. A table is made of records exactly if, in every
namespace that several records describe, all of them have keys.

What a table has of a namespace is put together from the members of its records, so a condition
on members that all records meet is one that the table meets.

Tables are made record by record, so the proofs go by induction from the end of the list, with
the last record added to the table of those before it (`ofRecords_concat`). What carries the
induction is that the table so far says of each namespace what its records say
(`represents_of_ofRecords`): whether the next record can be added is then a question about records
alone (`exists_add_iff`, `mergeable_concat`).
-/

namespace Typings

open Schema (Node Callable Record)

namespace Schema.Record

/-! ## What a record is made of -/

/-- Everything that a record says is said by one of `rs`. -/
structure MadeOf (rs : List Record) (r : Record) : Prop where
  name : ∃ s ∈ rs, s.name = r.name
  description : ∃ s ∈ rs, s.description = r.description
  functions : ∀ c ∈ r.functions, ∃ s ∈ rs, c ∈ s.functions
  events : ∀ e ∈ r.events, ∃ s ∈ rs, e ∈ s.events
  types : ∀ n ∈ r.types, ∃ s ∈ rs, n ∈ s.types
  properties : ∀ p ∈ r.properties, ∃ s ∈ rs, p ∈ s.properties

theorem madeOf_self {rs : List Record} {r : Record} (h : r ∈ rs) : MadeOf rs r :=
  ⟨⟨r, h, rfl⟩, ⟨r, h, rfl⟩, fun _ hc => ⟨r, h, hc⟩, fun _ he => ⟨r, h, he⟩,
    fun _ hn => ⟨r, h, hn⟩, fun _ hp => ⟨r, h, hp⟩⟩

/-- **What two records say together is said by one of them.** -/
theorem MadeOf.merge {rs : List Record} {a b : Record} (ha : MadeOf rs a) (hb : MadeOf rs b) :
    MadeOf rs (a.merge b) where
  name := ha.name
  description := by
    rw [description_merge]
    split
    · exact ha.description
    · exact hb.description
  -- merging drops members and never makes one
  functions := by
    intro c hc
    rcases List.mem_append.mp (Keyed.mem_of_mem_distinct hc) with h | h
    · exact hb.functions c h
    · exact ha.functions c h
  events := by
    intro e he
    rcases List.mem_append.mp he with h | h
    · exact hb.events e h
    · exact ha.events e (List.mem_filter.mp h).1
  types := by
    intro n hn
    rcases List.mem_append.mp (Keyed.mem_of_mem_distinct hn) with h | h
    · exact ha.types n h
    · exact hb.types n h
  properties := by
    intro p hp
    rcases Keyed.mem_of_mem_putAll hp with h | h
    · exact ha.properties p h
    · exact hb.properties p h

theorem madeOf_mergeAll {rs : List Record} {m : Record} (h : mergeAll rs = some m) :
    MadeOf rs m :=
  mergeAll_induction (fun _ _ => MadeOf.merge) (fun _ => madeOf_self) h

/-- The nodes of a record are nodes of what it is made of. -/
theorem MadeOf.nodes {rs : List Record} {r : Record} (h : MadeOf rs r) {n : Node}
    (hn : n ∈ r.nodes) : ∃ s ∈ rs, n ∈ s.nodes := by
  rcases mem_nodes.mp hn with ⟨t, ht, hn⟩ | ⟨c, hc, hn⟩ | ⟨e, he, hn⟩ | ⟨p, hp, hn⟩
  · obtain ⟨s, hs, hmem⟩ := h.types t ht
    exact ⟨s, hs, mem_nodes.mpr (.inl ⟨t, hmem, hn⟩)⟩
  · obtain ⟨s, hs, hmem⟩ := h.functions c hc
    exact ⟨s, hs, mem_nodes.mpr (.inr (.inl ⟨c, hmem, hn⟩))⟩
  · obtain ⟨s, hs, hmem⟩ := h.events e he
    exact ⟨s, hs, mem_nodes.mpr (.inr (.inr (.inl ⟨e, hmem, hn⟩)))⟩
  · obtain ⟨s, hs, hmem⟩ := h.properties p hp
    exact ⟨s, hs, mem_nodes.mpr (.inr (.inr (.inr ⟨p, hmem, hn⟩)))⟩

/-- So are its functions and events, those that are members of types included. -/
theorem MadeOf.callables {rs : List Record} {r : Record} (h : MadeOf rs r) {c : Callable}
    (hc : c ∈ r.callables) : ∃ s ∈ rs, c ∈ s.callables := by
  rcases List.mem_append.mp hc with hc | hc
  · rcases List.mem_append.mp hc with hc | hc
    · obtain ⟨s, hs, hmem⟩ := h.functions c hc
      exact ⟨s, hs, List.mem_append_left _ (List.mem_append_left _ hmem)⟩
    · obtain ⟨s, hs, hmem⟩ := h.events c hc
      exact ⟨s, hs, List.mem_append_left _ (List.mem_append_right _ hmem)⟩
  · obtain ⟨n, hn, hmem⟩ := List.mem_flatMap.mp hc
    obtain ⟨s, hs, hnode⟩ := h.nodes hn
    exact ⟨s, hs, List.mem_append_right _ (List.mem_flatMap.mpr ⟨n, hnode, hmem⟩)⟩

/-! ## Merging -/

theorem merge?_eq_ok_iff {older newer r : Record} : older.merge? newer = .ok r ↔
    older.hasKeys = true ∧ newer.hasKeys = true ∧ r = older.merge newer := by
  constructor
  · intro h
    unfold merge? at h
    split at h
    case isTrue hkeys =>
      obtain ⟨holder, hnewer⟩ := Bool.and_eq_true_iff.mp hkeys
      exact ⟨holder, hnewer, (Except.ok.inj h).symm⟩
    case isFalse => cases h
  · rintro ⟨holder, hnewer, rfl⟩
    exact merge?_eq_ok holder hnewer

end Schema.Record

namespace Table

/-! ## One more record -/

/-- What has been said of its namespace so far allows a record to be added. -/
theorem add_eq_ok {t u : Table} {r : Record} : t.add r = .ok u ↔
    (∀ older, t.get? r.name = some older → older.hasKeys = true ∧ r.hasKeys = true) ∧
      ∃ s, Option.merge Record.merge (t.get? r.name) (some r) = some s ∧ u = t.put s := by
  unfold add
  cases t.get? r.name with
  -- the first record of a namespace is taken as it is
  | none =>
    constructor
    · intro h
      exact ⟨by simp, r, rfl, (Except.ok.inj h).symm⟩
    · rintro ⟨-, s, hs, rfl⟩
      rw [Option.some.inj hs]
  | some older =>
    simp only [Fault.map_eq_ok, Record.merge?_eq_ok_iff]
    constructor
    · rintro ⟨s, ⟨holder, hr, rfl⟩, rfl⟩
      exact ⟨fun _ h => Option.some.inj h ▸ ⟨holder, hr⟩, _, rfl, rfl⟩
    · rintro ⟨hkeys, s, hs, rfl⟩
      obtain ⟨holder, hr⟩ := hkeys older rfl
      exact ⟨s, ⟨holder, hr, (Option.some.inj hs).symm⟩, rfl⟩

theorem ofRecords_concat (rs : List Record) (r : Record) :
    ofRecords (rs ++ [r]) = ofRecords rs >>= fun t => t.add r := by
  unfold ofRecords
  rw [List.foldlM_append]
  simp only [List.foldlM_cons, List.foldlM_nil, bind_pure]

theorem ofRecords_concat_eq_ok {rs : List Record} {r : Record} {u : Table} :
    ofRecords (rs ++ [r]) = .ok u ↔ ∃ t, ofRecords rs = .ok t ∧ t.add r = .ok u := by
  rw [ofRecords_concat, Fault.bind_eq_ok]

/-- **A table that has been made says what its records say.** -/
theorem represents_of_ofRecords {rs : List Record} {t : Table} (h : ofRecords rs = .ok t) :
    Represents t rs := by
  induction rs using List.reverseRecOn generalizing t with
  | nil =>
    obtain rfl : empty = t := Except.ok.inj h
    exact represents_empty
  | append_singleton rs r ih =>
    obtain ⟨t', ht', hadd⟩ := ofRecords_concat_eq_ok.mp h
    obtain ⟨-, s, hs, rfl⟩ := add_eq_ok.mp hadd
    -- what is put into the table has the name of the record that is added
    refine (ih ht').put ?_ hs
    cases hget : t'.get? r.name with
    | none =>
      rw [hget, Option.merge_none_left, Option.some.injEq] at hs
      rw [← hs]
    | some older =>
      rw [hget, Option.merge_some_some, Option.some.injEq] at hs
      rw [← hs, Record.name_merge]
      exact name_of_get? hget

/-! ## Many records -/

/-- Where a namespace has several records, all of them have keys. -/
def Mergeable (rs : List Record) : Prop :=
  ∀ r ∈ rs, 2 ≤ (group r.name rs).length → r.hasKeys = true

theorem group_self (r : Record) : group r.name [r] = [r] :=
  List.filter_cons_of_pos (by simp)

theorem group_eq_nil {r : Record} {name : String} (h : r.name ≠ name) : group name [r] = [] :=
  List.filter_cons_of_neg (by simpa using h)

/-- **One more record can be merged if it, and what it is merged with, have keys.** -/
theorem mergeable_concat {rs : List Record} {r : Record} : Mergeable (rs ++ [r]) ↔
    Mergeable rs ∧ (group r.name rs ≠ [] →
      r.hasKeys = true ∧ ∀ s ∈ group r.name rs, s.hasKeys = true) := by
  constructor
  · intro h
    refine ⟨fun s hs hlen => h s (List.mem_append_left _ hs) ?_, fun hne => ?_⟩
    · rw [group_append, List.length_append]
      omega
    · have hlen : 2 ≤ (group r.name (rs ++ [r])).length := by
        have hpos := List.length_pos_iff.mpr hne
        rw [group_append, group_self, List.length_append, List.length_singleton]
        omega
      refine ⟨h r (by simp) hlen, fun s hs => ?_⟩
      obtain ⟨hs, hname⟩ := mem_group.mp hs
      exact h s (List.mem_append_left _ hs) (hname ▸ hlen)
  · rintro ⟨hrs, hr⟩ s hs hlen
    by_cases hname : r.name = s.name
    · -- the namespace of the new record had records before
      rw [group_append, ← hname, group_self, List.length_append, List.length_singleton] at hlen
      have hne : group r.name rs ≠ [] := List.length_pos_iff.mp (by omega)
      rcases List.mem_append.mp hs with hs | hs
      · exact (hr hne).2 s (mem_group.mpr ⟨hs, hname.symm⟩)
      · exact List.mem_singleton.mp hs ▸ (hr hne).1
    · rw [group_append, group_eq_nil hname, List.append_nil] at hlen
      rcases List.mem_append.mp hs with hs | hs
      · exact hrs s hs hlen
      · exact absurd (congrArg Record.name (List.mem_singleton.mp hs)).symm hname

/-- Where the records of a namespace have keys together, each of them has. -/
theorem hasKeys_of_mergeAll {rs : List Record} {name : String} {older : Record}
    (h : Mergeable rs) (holder : Record.mergeAll (group name rs) = some older)
    (hkeys : older.hasKeys = true) : ∀ s ∈ group name rs, s.hasKeys = true := by
  intro s hs
  by_cases hlen : 2 ≤ (group name rs).length
  · obtain ⟨hmem, hname⟩ := mem_group.mp hs
    exact h s hmem (hname.symm ▸ hlen)
  · -- a single record is what it says together with no other
    have hpos := List.length_pos_of_mem hs
    obtain ⟨a, ha⟩ := List.length_eq_one_iff.mp (show (group name rs).length = 1 by omega)
    rw [ha] at hs holder
    rw [Record.mergeAll_singleton, Option.some.injEq] at holder
    rw [List.mem_singleton.mp hs, holder]
    exact hkeys

theorem exists_add_iff {t : Table} {r : Record} : (∃ u, t.add r = .ok u) ↔
    ∀ older, t.get? r.name = some older → older.hasKeys = true ∧ r.hasKeys = true := by
  constructor
  · rintro ⟨u, hu⟩
    exact (add_eq_ok.mp hu).1
  · intro hkeys
    have hmerge : ∃ s, Option.merge Record.merge (t.get? r.name) (some r) = some s := by
      cases t.get? r.name <;> exact ⟨_, rfl⟩
    obtain ⟨s, hs⟩ := hmerge
    exact ⟨t.put s, add_eq_ok.mpr ⟨hkeys, s, hs, rfl⟩⟩

/-- **Records make a table exactly if they can be merged.** -/
theorem exists_ofRecords_iff {rs : List Record} :
    (∃ t, ofRecords rs = .ok t) ↔ Mergeable rs := by
  induction rs using List.reverseRecOn with
  | nil => exact ⟨fun _ r hr => absurd hr (by simp), fun _ => ⟨empty, rfl⟩⟩
  | append_singleton rs r ih =>
    rw [mergeable_concat, ← ih]
    constructor
    -- the table before the last record exists, and it says of the namespace what its records do
    · rintro ⟨u, hu⟩
      obtain ⟨t, ht, hadd⟩ := ofRecords_concat_eq_ok.mp hu
      refine ⟨⟨t, ht⟩, fun hne => ?_⟩
      obtain ⟨older, holder⟩ : ∃ older, Record.mergeAll (group r.name rs) = some older :=
        Option.ne_none_iff_exists'.mp fun hnone => hne (Record.eq_nil_of_mergeAll hnone)
      obtain ⟨hkeys, hr⟩ := exists_add_iff.mp ⟨u, hadd⟩ older
        (((represents_of_ofRecords ht).get r.name).trans holder)
      exact ⟨hr, hasKeys_of_mergeAll (ih.mp ⟨t, ht⟩) holder hkeys⟩
    · rintro ⟨⟨t, ht⟩, hr⟩
      -- adding compares keys only if the namespace is in the table already
      obtain ⟨u, hu⟩ : ∃ u, t.add r = .ok u := by
        refine exists_add_iff.mpr fun older holder => ?_
        rw [(represents_of_ofRecords ht).get] at holder
        have hne : group r.name rs ≠ [] := by
          intro hnil
          rw [hnil] at holder
          exact absurd holder (by simp)
        exact ⟨Record.hasKeys_mergeAll (hr hne).2 holder, (hr hne).1⟩
      exact ⟨u, ofRecords_concat_eq_ok.mpr ⟨t, ht, hu⟩⟩

/-- Only keys can be in the way of a record that is added. -/
theorem compositeKey_of_add {t : Table} {r : Record} {fault : Fault}
    (h : t.add r = .error fault) : fault = .compositeKey := by
  unfold add at h
  split at h
  · cases h
  · have hmerge := Fault.map_eq_error.mp h
    unfold Record.merge? at hmerge
    split at hmerge
    · cases hmerge
    · exact (Except.error.inj hmerge).symm

theorem compositeKey_of_ofRecords {rs : List Record} {fault : Fault}
    (h : ofRecords rs = .error fault) : fault = .compositeKey := by
  induction rs using List.reverseRecOn with
  | nil => cases h
  | append_singleton rs r ih =>
    rw [ofRecords_concat] at h
    rcases Fault.bind_eq_error.mp h with h | ⟨t, -, h⟩
    · exact ih h
    · exact compositeKey_of_add h

/-! ## Tables that are built -/

theorem build_eq_ok {rs : List Record} {ignored : Ignored} {t : Table} :
    build rs ignored = .ok t ↔ ∃ u, ofRecords rs = .ok u ∧
      t = (u.removeFunctions undeclarable).dropIgnored ignored := by
  unfold build
  rw [Fault.bind_eq_ok]
  exact exists_congr fun u => and_congr_right fun _ => ⟨fun h => (Except.ok.inj h).symm,
    fun h => h ▸ rfl⟩

/-- Only functions named `delete` cannot be declared. -/
theorem isNamed_undeclarable {c : Callable} (h : c.name ≠ .str "delete") :
    isNamed undeclarable c = false := by
  unfold isNamed
  split
  case h_1 name hname =>
    rw [hname] at h
    simpa [undeclarable] using h
  case h_2 => rfl

theorem compositeKey_of_build {rs : List Record} {ignored : Ignored} {fault : Fault}
    (h : build rs ignored = .error fault) : fault = .compositeKey := by
  rcases Fault.bind_eq_error.mp h with h | ⟨t, -, h⟩
  · exact compositeKey_of_ofRecords h
  · cases h

theorem exists_build_iff {rs : List Record} (ignored : Ignored) :
    (∃ t, build rs ignored = .ok t) ↔ Mergeable rs := by
  rw [← exists_ofRecords_iff]
  constructor
  · rintro ⟨t, ht⟩
    obtain ⟨u, hu, -⟩ := build_eq_ok.mp ht
    exact ⟨u, hu⟩
  · rintro ⟨u, hu⟩
    exact ⟨_, build_eq_ok.mpr ⟨u, hu, rfl⟩⟩

/-- **What a table that is built has of a namespace is what its records say**, and the namespace
is not ignored. -/
theorem madeOf_of_build {rs : List Record} {ignored : Ignored} {t : Table}
    (h : build rs ignored = .ok t) {r : Record} (hr : r ∈ t.records) :
    r.MadeOf (group r.name rs) ∧ ignored.covers r.name = false := by
  obtain ⟨u, hu, rfl⟩ := build_eq_ok.mp h
  obtain ⟨hmem, hkept⟩ := List.mem_filter.mp hr
  obtain ⟨m, hm, rfl⟩ := List.mem_map.mp hmem
  have hget := (represents_of_ofRecords hu).get m.name
  rw [get?_of_mem hm] at hget
  have hmade := Record.madeOf_mergeAll hget.symm
  -- the functions that cannot be declared are left out, and nothing is added
  exact ⟨{ hmade with functions := fun c hc => hmade.functions c (List.mem_filter.mp hc).1 },
    by simpa using hkept⟩

end Table

end Typings
