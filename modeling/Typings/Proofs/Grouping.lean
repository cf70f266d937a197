import Mathlib.Data.List.Induction
import Typings.Namespace.Table
import Typings.Proofs.KeyedLists

/-!
# A table says what the records of each namespace say

**Merging records is associative.** Each of the five kinds of members has a rule of its own, and
each rule is associative, so merging is. Nothing is asked of the records: that a record has one
property of each name is part of what a record is. With associativity, what a list of records of one
namespace says (`mergeAll`) does not depend on how the list was cut up and merged piece by piece.

**Records of different namespaces do not meet**, so a table built from a list of records can
be read off the list one namespace at a time: its names are the names of the records in
order of first appearance, and what it has under a name is what the records of that name
say together (`Represents`). Adding one more record keeps this (`represents_add`), and so
it holds of every table that is built (`represents_ofRecords`).

A table is determined by what it represents. Since merging is associative, cutting the
list anywhere and building the pieces first makes no difference.
-/

namespace Typings.Schema.Record

/-! ## The rules one by one -/

theorem mergeFunctions_assoc (as bs cs : List Callable) :
    mergeFunctions (mergeFunctions as bs) cs = mergeFunctions as (mergeFunctions bs cs) := by
  unfold mergeFunctions
  rw [Keyed.distinct_append_right, Keyed.distinct_append_left, List.append_assoc]

theorem mergeTypes_assoc (as bs cs : List Node) :
    mergeTypes (mergeTypes as bs) cs = mergeTypes as (mergeTypes bs cs) := by
  unfold mergeTypes
  rw [Keyed.distinct_append_right, Keyed.distinct_append_left, List.append_assoc]

/-- Which events a merge has a key of: those that one of its sides has a key of. -/
theorem mem_eventKeys_mergeEvents {older newer : List Callable} {k : EventKey} :
    k ∈ (mergeEvents older newer).map Callable.eventKey ↔
      k ∈ older.map Callable.eventKey ∨ k ∈ newer.map Callable.eventKey := by
  unfold mergeEvents
  rw [List.map_append, List.mem_append, or_comm]
  by_cases hk : k ∈ newer.map Callable.eventKey
  · exact ⟨fun _ => Or.inr hk, fun _ => Or.inr hk⟩
  · -- an older event is dropped only for one with its own key
    simp only [hk, or_false]
    constructor
    · intro h
      obtain ⟨e, he, rfl⟩ := List.mem_map.mp h
      exact List.mem_map_of_mem (List.mem_filter.mp he).1
    · intro h
      obtain ⟨e, he, rfl⟩ := List.mem_map.mp h
      exact List.mem_map_of_mem (List.mem_filter.mpr ⟨he, decide_eq_true hk⟩)

theorem mergeEvents_assoc (as bs cs : List Callable) :
    mergeEvents (mergeEvents as bs) cs = mergeEvents as (mergeEvents bs cs) := by
  -- an event goes if either of the newer lists has its key
  have hdrop : as.filter (fun e => e.eventKey ∉ (mergeEvents bs cs).map Callable.eventKey) =
      (as.filter fun e => e.eventKey ∉ bs.map Callable.eventKey).filter
        fun e => e.eventKey ∉ cs.map Callable.eventKey := by
    rw [List.filter_filter]
    refine List.filter_congr (fun e _ => ?_)
    rw [← Bool.decide_and]
    refine decide_eq_decide.mpr ?_
    rw [mem_eventKeys_mergeEvents, not_or, and_comm]
  show cs ++ (mergeEvents as bs).filter _ = mergeEvents bs cs ++ as.filter _
  rw [hdrop]
  unfold mergeEvents
  rw [List.filter_append, List.append_assoc]

theorem description_merge (a b : Record) :
    (a.merge b).description = if a.description.isSet then a.description else b.description := rfl

/-- **Merging records is associative**, in every field and with its order. -/
theorem merge_assoc (a b c : Record) : (a.merge b).merge c = a.merge (b.merge c) := by
  apply Record.ext
  case name => rfl
  case description =>
    rw [description_merge, description_merge, description_merge, description_merge]
    by_cases ha : a.description.isSet = true
    · simp only [ha, if_true]
    · simp only [ha, if_false, Bool.false_eq_true]
  case functions => exact mergeFunctions_assoc a.functions b.functions c.functions
  case events => exact mergeEvents_assoc a.events b.events c.events
  case types => exact mergeTypes_assoc a.types b.types c.types
  case properties => exact Keyed.putAll_putAll a.nodup b.nodup c.nodup

instance : Std.Associative merge := ⟨merge_assoc⟩

/-! ## Members keep their keys -/

/-- What has keys on both sides of a merge has keys afterwards. -/
theorem hasKeys_merge {older newer : Record} (ho : older.hasKeys = true)
    (hn : newer.hasKeys = true) : (older.merge newer).hasKeys = true := by
  unfold hasKeys at ho hn ⊢
  simp only [Bool.and_eq_true, List.all_eq_true] at ho hn ⊢
  obtain ⟨⟨hof, hoe⟩, hot⟩ := ho
  obtain ⟨⟨hnf, hne⟩, hnt⟩ := hn
  -- every member comes from one side or the other
  refine ⟨⟨fun c hc => ?_, fun e he => ?_⟩, fun n hmem => ?_⟩
  · rcases List.mem_append.mp (Keyed.mem_of_mem_distinct hc) with h | h
    · exact hnf c h
    · exact hof c h
  · rcases List.mem_append.mp he with h | h
    · exact hne e h
    · exact hoe e (List.mem_filter.mp h).1
  · rcases List.mem_append.mp (Keyed.mem_of_mem_distinct hmem) with h | h
    · exact hot n h
    · exact hnt n h

theorem merge?_eq_ok {older newer : Record} (ho : older.hasKeys = true)
    (hn : newer.hasKeys = true) : older.merge? newer = .ok (older.merge newer) := by
  unfold merge?
  rw [ho, hn]
  rfl

/-! ## Many records -/

/-- What a list of records says together, if there are any: the records merged pairwise,
from the oldest to the newest. -/
def mergeAll (rs : List Record) : Option Record :=
  rs.foldl (fun acc r => Option.merge merge acc (some r)) none

@[simp] theorem mergeAll_nil : mergeAll [] = none := rfl

@[simp] theorem mergeAll_singleton (r : Record) : mergeAll [r] = some r := rfl

theorem mergeAll_concat (rs : List Record) (r : Record) :
    mergeAll (rs ++ [r]) = Option.merge merge (mergeAll rs) (some r) := by
  unfold mergeAll
  rw [List.foldl_append]
  rfl

/-- Only of no records at all there is nothing to say. -/
theorem eq_nil_of_mergeAll {rs : List Record} (h : mergeAll rs = none) : rs = [] := by
  cases rs using List.reverseRecOn with
  | nil => rfl
  | append_singleton rs r =>
    rw [mergeAll_concat] at h
    cases ha : mergeAll rs <;> rw [ha] at h <;> simp at h

/-- The newest record is the only one, or it has been merged into what the others say. -/
theorem mergeAll_concat_cases {rs : List Record} {r s : Record}
    (h : mergeAll (rs ++ [s]) = some r) :
    (rs = [] ∧ r = s) ∨ ∃ a, mergeAll rs = some a ∧ r = a.merge s := by
  rw [mergeAll_concat] at h
  cases ha : mergeAll rs with
  | none =>
    rw [ha, Option.merge_none_left, Option.some.injEq] at h
    exact Or.inl ⟨eq_nil_of_mergeAll ha, h.symm⟩
  | some a =>
    rw [ha, Option.merge_some_some, Option.some.injEq] at h
    exact Or.inr ⟨a, rfl, h.symm⟩

theorem optionMerge_assoc (a b c : Option Record) :
    (a.merge merge b).merge merge c = a.merge merge (b.merge merge c) :=
  Std.Associative.assoc a b c

/-- Two stretches of records can be merged on their own first. -/
theorem mergeAll_append (rs ss : List Record) :
    mergeAll (rs ++ ss) = Option.merge merge (mergeAll rs) (mergeAll ss) := by
  induction ss using List.reverseRecOn with
  | nil => rw [List.append_nil, mergeAll_nil, Option.merge_none_right]
  | append_singleton ss s ih =>
    rw [← List.append_assoc, mergeAll_concat, ih, mergeAll_concat, optionMerge_assoc]

/-- **However a list of records is cut, merging the pieces and then what they gave is merging
the list.** -/
theorem mergeAll_flatten (rss : List (List Record)) :
    mergeAll (rss.filterMap mergeAll) = mergeAll rss.flatten := by
  induction rss with
  | nil => rfl
  | cons rs rss ih =>
    rw [List.flatten_cons, mergeAll_append, ← ih]
    cases h : mergeAll rs with
    | none => rw [List.filterMap_cons_none h, Option.merge_none_left]
    | some r =>
      rw [List.filterMap_cons_some h, ← List.singleton_append, mergeAll_append,
        mergeAll_singleton]

/-- A condition that merging keeps holds of what several records say, if it holds of each. -/
theorem mergeAll_induction {P : Record → Prop} (hmerge : ∀ a b, P a → P b → P (a.merge b))
    {rs : List Record} (h : ∀ r ∈ rs, P r) {m : Record} (hm : mergeAll rs = some m) : P m := by
  induction rs using List.reverseRecOn generalizing m with
  | nil => exact absurd hm (by simp)
  | append_singleton rs s ih =>
    have hs : P s := h s (by simp)
    rcases mergeAll_concat_cases hm with ⟨-, rfl⟩ | ⟨a, ha, rfl⟩
    · exact hs
    · exact hmerge a s (ih (fun r hr => h r (List.mem_append_left _ hr)) ha) hs

theorem hasKeys_mergeAll {rs : List Record} (h : ∀ r ∈ rs, r.hasKeys = true) {r : Record}
    (hr : mergeAll rs = some r) : r.hasKeys = true :=
  mergeAll_induction (fun _ _ => hasKeys_merge) h hr

end Typings.Schema.Record

namespace Typings.Table

open Schema (Record)

/-- The records of one namespace, in order. -/
def group (name : String) (rs : List Record) : List Record := rs.filter fun r => r.name = name

/-- A table says what a list of records says. -/
structure Represents (t : Table) (rs : List Record) : Prop where
  /-- Every namespace comes once, where it came first. -/
  names : t.names = Keyed.distinct some (rs.map Record.name)
  /-- What a namespace has is what its records say together. -/
  get : ∀ name, t.get? name = Record.mergeAll (group name rs)

theorem eq_of_get?_eq {t u : Table} (hnames : t.names = u.names)
    (hget : ∀ name, t.get? name = u.get? name) : t = u := by
  have hrecords : t.records = u.records := Keyed.eq_of_find?_eq t.nodup hnames hget
  cases t
  cases u
  subst hrecords
  rfl

/-- Two tables that represent the same records are the same. -/
theorem Represents.unique {t u : Table} {rs : List Record} (ht : Represents t rs)
    (hu : Represents u rs) : t = u :=
  eq_of_get?_eq (ht.names.trans hu.names.symm) fun name => (ht.get name).trans (hu.get name).symm

/-! ## Groups -/

theorem group_append (name : String) (rs ss : List Record) :
    group name (rs ++ ss) = group name rs ++ group name ss := List.filter_append ..

theorem group_flatten (name : String) (rss : List (List Record)) :
    group name rss.flatten = (rss.map (group name)).flatten := by
  induction rss with
  | nil => rfl
  | cons rs rss ih => rw [List.flatten_cons, group_append, ih]; rfl

theorem mem_group {name : String} {rs : List Record} {r : Record} :
    r ∈ group name rs ↔ r ∈ rs ∧ r.name = name := by
  unfold group
  rw [List.mem_filter, decide_eq_true_eq]

/-- The records of a table have names of their own, so a group is a lookup. -/
theorem group_records (t : Table) (name : String) : group name t.records = (t.get? name).toList :=
  Keyed.filter_key_eq t.nodup name

/-- A table has every one of its records under that record's name. -/
theorem get?_of_mem {t : Table} {r : Record} (h : r ∈ t.records) : t.get? r.name = some r := by
  have hgroup : r ∈ group r.name t.records := mem_group.mpr ⟨h, rfl⟩
  rwa [group_records, Option.mem_toList] at hgroup

/-- What a table has under a name has that name. -/
theorem name_of_get? {t : Table} {name : String} {r : Record} (h : t.get? name = some r) :
    r.name = name := Keyed.key_of_find? h

/-- A change of every record is seen under every name. -/
theorem get?_map (t : Table) (f : Record → Record) (h : ∀ r, (f r).name = r.name) (name : String) :
    (t.map f h).get? name = (t.get? name).map f := Keyed.find?_map h name t.records

/-! ## Building -/

theorem represents_empty : Represents empty [] := ⟨rfl, fun _ => rfl⟩

/-- Putting the record that a namespace has so far, with one more record merged into it. -/
theorem Represents.put {t : Table} {rs : List Record} (h : Represents t rs) {r s : Record}
    (hname : s.name = r.name)
    (hs : Option.merge Record.merge (t.get? r.name) (some r) = some s) :
    Represents (t.put s) (rs ++ [r]) where
  names := by
    have hnames := Keyed.map_put_eq_distinct t.nodup s
    show (t.put s).records.map Record.name = _
    rw [show (t.put s).records = Keyed.put Record.name s t.records from rfl, hnames, hname,
      show t.records.map Record.name = _ from h.names, Keyed.distinct_append_left, List.map_append]
    rfl
  get := by
    intro name
    rw [get?_put, group_append, hname]
    -- the group of the namespace has one record more, and the others are as before
    by_cases hr : r.name = name
    · have hgroup : group name [r] = [r] := List.filter_cons_of_pos (by simpa using hr)
      rw [if_pos hr, hgroup, Record.mergeAll_concat, ← h.get, ← hr, hs]
    · have hgroup : group name [r] = [] := List.filter_cons_of_neg (by simpa using hr)
      rw [if_neg hr, hgroup, List.append_nil, h.get]

/-- **Adding a record keeps what a table represents**, with the record behind it. -/
theorem represents_add {t : Table} {rs : List Record} (h : Represents t rs) {r : Record}
    (hkeys : ∀ s ∈ rs, s.hasKeys = true) (hr : r.hasKeys = true) :
    ∃ u, t.add r = .ok u ∧ Represents u (rs ++ [r]) := by
  unfold add
  cases hget : t.get? r.name with
  | none => exact ⟨t.put r, rfl, h.put rfl (by rw [hget]; rfl)⟩
  | some older =>
    -- what the table has is what records with keys say
    have holder : older.hasKeys = true :=
      Record.hasKeys_mergeAll (fun s hs => hkeys s (mem_group.mp hs).1)
        ((h.get r.name).symm.trans hget)
    refine ⟨t.put (older.merge r), ?_, h.put ?_ (by rw [hget]; rfl)⟩
    · show t.put <$> older.merge? r = _
      rw [Record.merge?_eq_ok holder hr]
      rfl
    · rw [Record.name_merge]
      exact name_of_get? hget

/-- **A table is built from any records whose members have keys, and represents them.** -/
theorem represents_ofRecords {rs : List Record} (hkeys : ∀ r ∈ rs, r.hasKeys = true) :
    ∃ t, ofRecords rs = .ok t ∧ Represents t rs := by
  induction rs using List.reverseRecOn with
  | nil => exact ⟨empty, rfl, represents_empty⟩
  | append_singleton rs r ih =>
    have hrs : ∀ s ∈ rs, s.hasKeys = true := fun s hs => hkeys s (List.mem_append_left _ hs)
    obtain ⟨t, ht, hrep⟩ := ih hrs
    obtain ⟨u, hu, hrep'⟩ := represents_add hrep hrs (hkeys r (by simp))
    refine ⟨u, ?_, hrep'⟩
    -- a table is made from left to right, so the last record is added to the table of the others
    unfold ofRecords at ht ⊢
    rw [List.foldlM_append, ht]
    show add t r >>= pure = _
    rw [hu]
    rfl

theorem hasKeys_of_represents {t : Table} {rs : List Record} (h : Represents t rs)
    (hkeys : ∀ r ∈ rs, r.hasKeys = true) : ∀ r ∈ t.records, r.hasKeys = true := by
  intro r hr
  have hgroup : r ∈ group r.name t.records := mem_group.mpr ⟨hr, rfl⟩
  rw [group_records, Option.mem_toList, h.get] at hgroup
  exact Record.hasKeys_mergeAll (fun s hs => hkeys s (mem_group.mp hs).1) hgroup

end Typings.Table
