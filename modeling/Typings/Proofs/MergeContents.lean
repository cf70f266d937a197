import Typings.Proofs.Grouping

/-!
# What a merged record contains

Merging is pairwise, so after the first step the older side has been thinned out and put
into a new order already. Still, what a list of records of one namespace says together can
be read off the list, one kind of member at a time, and without merging anything:

* the functions are the first ones of each kind in the newest record, then in the one
  before it, and so on;
* the types are the first ones of each name from the oldest record on, and all nameless ones;
* an event is there unless a newer record has one of its kind;
* the properties come where their names came first, with what the last record says;
* the description is the first one that is set.

A namespace that only one record describes is left as it is, even if it says something
twice. `Says` is the invariant that merging one more record keeps: about functions and
types it only speaks of what is left after more has been put in front or behind.
-/

namespace Typings.Keyed

variable {α κ : Type} [DecidableEq κ]

/-- Every member of a list with all that comes before it, where `earlier` precedes the list. -/
def withEarlier {α : Type} (earlier : List α) : List α → List (List α × α)
  | [] => []
  | a :: as => (earlier, a) :: withEarlier (earlier ++ [a]) as

/-- The members without a key, and those whose key no earlier member has. -/
def firsts (key : α → Option κ) (as : List α) : List α :=
  ((withEarlier [] as).filter fun p => key p.2 = none ∨ ∀ b ∈ p.1, key b ≠ key p.2).map Prod.snd

/-- Being fresh, told by the members instead of their keys. -/
theorem isFresh_filterMap (key : α → Option κ) (earlier : List α) (a : α) :
    isFresh key (earlier.filterMap key) a =
      decide (key a = none ∨ ∀ b ∈ earlier, key b ≠ key a) := by
  cases h : key a with
  | none => rw [isFresh_none h]; simp
  | some k =>
    rw [isFresh_some h]
    refine decide_eq_decide.mpr ?_
    simp only [List.mem_filterMap, not_exists, not_and, reduceCtorEq, false_or]

/-- What is fresh does not depend on keys that come again. -/
theorem distinctFrom_cons (key : α → Option κ) (earlier : List α) (a : α) (as : List α) :
    distinctFrom key (earlier.filterMap key) (a :: as) =
      (if isFresh key (earlier.filterMap key) a then [a] else []) ++
        distinctFrom key ((earlier ++ [a]).filterMap key) as := by
  rw [List.filterMap_append, filterMap_cons_toList]
  cases h : key a with
  | none =>
    simp only [distinctFrom, h]
    rw [if_pos (isFresh_none h _)]
    simp
  | some k =>
    simp only [distinctFrom, h]
    rw [isFresh_some h, distinctFrom_eq_filter, distinctFrom_eq_filter, distinctFrom_eq_filter]
    by_cases hk : k ∈ earlier.filterMap key
    · -- the key of `a` is there already and adds nothing
      rw [if_pos hk, if_neg (by simpa using hk), isFresh_congr (fun x => ?_)]
      · rfl
      · simp only [List.filterMap_nil, List.append_nil, Option.toList_some, List.mem_append,
          List.mem_singleton]
        exact ⟨Or.inl, fun hx => hx.elim id (fun he => he ▸ hk)⟩
    · rw [if_neg hk, if_pos (by simpa using hk), isFresh_congr (fun x => ?_)]
      · rfl
      · simp [or_comm]

/-- **Thinning out a list keeps the first members.** -/
theorem distinct_eq_firsts (key : α → Option κ) (as : List α) :
    distinct key as = firsts key as := by
  -- stronger than what is asked for: the members may come behind earlier ones
  have key' : ∀ earlier : List α, distinctFrom key (earlier.filterMap key) as =
      ((withEarlier earlier as).filter
        fun p => key p.2 = none ∨ ∀ b ∈ p.1, key b ≠ key p.2).map Prod.snd := by
    induction as with
    | nil => intro earlier; rfl
    | cons a as ih =>
      intro earlier
      rw [distinctFrom_cons, ih, isFresh_filterMap, withEarlier]
      by_cases ha : key a = none ∨ ∀ b ∈ earlier, key b ≠ key a
      · rw [if_pos (decide_eq_true ha), List.filter_cons_of_pos (by simpa using ha)]
        rfl
      · rw [if_neg (by simpa using ha), List.filter_cons_of_neg (by simpa using ha)]
        rfl
  exact key' []

end Typings.Keyed

namespace Typings.Schema.Record

open Keyed (firsts withEarlier)

/-! ## Events -/

/-- The events of records, newest record first, that no newer record replaces; `newer` are
records that come before all of these. -/
def keptEvents (newer rs : List Record) : List Callable :=
  (withEarlier newer rs).flatMap fun p =>
    p.2.events.filter fun e => ∀ n ∈ p.1, ∀ f ∈ n.events, f.eventKey ≠ e.eventKey

/-- More newer records replace more events, and do nothing else. -/
theorem keptEvents_append (ns newer rs : List Record) :
    keptEvents (ns ++ newer) rs =
      (keptEvents newer rs).filter fun e => ∀ n ∈ ns, ∀ f ∈ n.events, f.eventKey ≠ e.eventKey := by
  unfold keptEvents
  induction rs generalizing newer with
  | nil => rfl
  | cons r rs ih =>
    simp only [withEarlier, List.flatMap_cons]
    rw [List.append_assoc, ih, List.filter_append, List.filter_filter]
    -- an event is kept if neither group of newer records has its key
    refine congrArg (· ++ _) (List.filter_congr (fun e _ => ?_))
    rw [← Bool.decide_and]
    refine decide_eq_decide.mpr ?_
    simp only [List.mem_append, or_imp, forall_and]

/-- An event that a merge keeps of the older side is one that the newer record does not replace. -/
theorem mergeEvents_keptEvents (rs : List Record) (s : Record) :
    mergeEvents (keptEvents [] rs) s.events = keptEvents [] (s :: rs) := by
  have hself : s.events.filter (fun e => ∀ n ∈ ([] : List Record), ∀ f ∈ n.events,
      f.eventKey ≠ e.eventKey) = s.events :=
    List.filter_eq_self.mpr (fun e _ => decide_eq_true (fun n hn => absurd hn (by simp)))
  have hrest := keptEvents_append [s] [] rs
  rw [List.append_nil] at hrest
  show s.events ++ _ = s.events.filter _ ++ keptEvents [s] rs
  rw [hself, hrest]
  refine congrArg (s.events ++ ·) (List.filter_congr (fun e _ => ?_))
  refine decide_eq_decide.mpr ?_
  simp only [List.mem_map, not_exists, not_and, List.mem_singleton, forall_eq]

/-! ## The contents -/

/-- The contents of the record `r` that the records `rs` of one namespace make, given that
there are several, from the oldest to the newest. -/
structure Contents (rs : List Record) (r : Record) : Prop where
  /-- The first functions of each kind, from the newest record on. -/
  functions : r.functions =
    firsts (fun c => some c.functionKey) (rs.reverse.flatMap Record.functions)
  /-- The newest record's events, then those of the one before it that are not replaced, … -/
  events : r.events = keptEvents [] rs.reverse
  /-- The first types of each name from the oldest record on, and all nameless ones. -/
  types : r.types = firsts Node.typeKey (rs.flatMap Record.types)
  /-- A property of every name, in order of first appearance. -/
  names : r.properties.map Property.name =
    firsts some (rs.flatMap fun s => s.properties.map Property.name)
  /-- Each as the last record has it that has one of this name. -/
  values : ∀ name, Keyed.find? Property.name name r.properties =
    rs.reverse.findSome? fun s => Keyed.find? Property.name name s.properties
  /-- The first description that is set, and otherwise the one of the newest record. -/
  description : ((rs.find? fun s => s.description.isSet).or rs.getLast?).map Record.description =
    some r.description

/-- What is true of the contents from the first record on. -/
structure Says (rs : List Record) (r : Record) : Prop where
  functions : ∀ newer, Keyed.distinct (fun c => some c.functionKey) (newer ++ r.functions) =
    Keyed.distinct (fun c => some c.functionKey) (newer ++ rs.reverse.flatMap Record.functions)
  events : r.events = keptEvents [] rs.reverse
  types : ∀ newer, Keyed.distinct Node.typeKey (r.types ++ newer) =
    Keyed.distinct Node.typeKey (rs.flatMap Record.types ++ newer)
  names : r.properties.map Property.name =
    Keyed.distinct some (rs.flatMap fun s => s.properties.map Property.name)
  values : ∀ name, Keyed.find? Property.name name r.properties =
    rs.reverse.findSome? fun s => Keyed.find? Property.name name s.properties
  description : ((rs.find? fun s => s.description.isSet).or rs.getLast?).map Record.description =
    some r.description

theorem says_singleton (r : Record) : Says [r] r where
  functions := by intro newer; simp
  events := by
    show r.events = r.events.filter _ ++ []
    rw [List.append_nil, List.filter_eq_self.mpr]
    exact fun e _ => decide_eq_true (fun n hn => absurd hn (by simp))
  types := by intro newer; simp
  names := by
    rw [List.flatMap_singleton, Keyed.distinct_some_of_nodup r.nodup]
  values := by
    intro name
    rw [List.reverse_singleton, List.findSome?_singleton]
  description := by
    by_cases h : r.description.isSet = true <;> simp [h]

theorem says_description {rs : List Record} {a : Record} (h : Says rs a) (s : Record) :
    (((rs ++ [s]).find? fun r => r.description.isSet).or (rs ++ [s]).getLast?).map
      Record.description = some (a.merge s).description := by
  have ha := h.description
  rw [List.find?_append, List.getLast?_concat, description_merge]
  cases hf : rs.find? fun r => r.description.isSet with
  | some x =>
    -- the first description that is set is what the older side has already
    rw [hf, Option.some_or, Option.map_some, Option.some.injEq] at ha
    have hx : x.description.isSet = true := by simpa using List.find?_some hf
    have hset : a.description.isSet = true := ha ▸ hx
    rw [Option.some_or, Option.some_or, Option.map_some, ha, if_pos hset]
  | none =>
    -- none is set so far, the one of the last record included
    rw [hf, Option.none_or] at ha
    obtain ⟨x, hx, hxa⟩ := Option.map_eq_some_iff.mp ha
    have hnot : ¬ a.description.isSet = true := hxa ▸ List.find?_eq_none.mp hf x
      (List.mem_of_getLast? hx)
    rw [Option.none_or, if_neg hnot]
    by_cases hs : s.description.isSet = true <;> simp [hs]

/-- **Merging one more record keeps the invariant.** -/
theorem says_merge {rs : List Record} {a : Record} (h : Says rs a) (s : Record) :
    Says (rs ++ [s]) (a.merge s) where
  -- newer functions come first, so the new record goes in front
  functions := by
    intro newer
    show Keyed.distinct _ (newer ++ Keyed.distinct _ (s.functions ++ a.functions)) = _
    rw [Keyed.distinct_append_right, ← List.append_assoc, h.functions, List.reverse_concat,
      List.flatMap_cons, List.append_assoc]
  events := by
    show mergeEvents a.events s.events = _
    rw [h.events, mergeEvents_keptEvents, List.reverse_concat]
  -- older types come first, so the new record goes behind
  types := by
    intro newer
    show Keyed.distinct _ (Keyed.distinct _ (a.types ++ s.types) ++ newer) = _
    rw [Keyed.distinct_append_left, List.append_assoc, h.types, List.flatMap_append,
      List.flatMap_singleton, List.append_assoc]
  names := by
    show (Keyed.putAll Property.name a.properties s.properties).map Property.name = _
    rw [Keyed.map_putAll a.nodup, h.names, Keyed.distinct_append_left, List.flatMap_append,
      List.flatMap_singleton]
  -- a property has the value of the last record that has it
  values := by
    intro name
    show Keyed.find? Property.name name (Keyed.putAll Property.name a.properties s.properties) = _
    rw [Keyed.find?_putAll, Keyed.find?_reverse s.nodup, h.values, List.reverse_concat,
      List.findSome?_cons]
    cases Keyed.find? Property.name name s.properties <;> rfl
  description := says_description h s

/-- Any records say what they say, however many there are. -/
theorem says_mergeAll {rs : List Record} {r : Record} (h : mergeAll rs = some r) : Says rs r := by
  induction rs using List.reverseRecOn generalizing r with
  | nil => exact absurd h (by simp)
  | append_singleton rs s ih =>
    rcases mergeAll_concat_cases h with ⟨rfl, rfl⟩ | ⟨a, ha, rfl⟩
    · exact says_singleton r
    · exact says_merge (ih ha) s

/-- **Several records of one namespace make a record with these contents.** -/
theorem contents_mergeAll {rs : List Record} {r : Record} (hlen : 2 ≤ rs.length)
    (h : mergeAll rs = some r) : Contents rs r := by
  have hsays := says_mergeAll h
  cases rs using List.reverseRecOn with
  | nil => exact absurd hlen (by simp)
  | append_singleton ss s =>
    rcases mergeAll_concat_cases h with ⟨rfl, -⟩ | ⟨a, ha, rfl⟩
    · exact absurd hlen (by simp)
    · -- the last merge thins out what the records before the newest one say
      have hprev := says_mergeAll ha
      refine ⟨?_, hsays.events, ?_, ?_, hsays.values, hsays.description⟩
      · rw [← Keyed.distinct_eq_firsts, List.reverse_concat, List.flatMap_cons]
        exact hprev.functions s.functions
      · rw [← Keyed.distinct_eq_firsts, List.flatMap_append, List.flatMap_singleton]
        exact hprev.types s.types
      · rw [← Keyed.distinct_eq_firsts]
        exact hsays.names

end Typings.Schema.Record

namespace Typings.Table

open Schema (Record)

/--
**What a table contains, in closed form.**

Records whose members have keys make a table with one record for each namespace, in order
of first appearance. A namespace that one record describes has that record, and one that
several records describe has a record with the contents of all of them.
-/
theorem ofRecords_contents {rs : List Record} (hkeys : ∀ r ∈ rs, r.hasKeys = true) :
    ∃ t, ofRecords rs = .ok t ∧ t.names = Keyed.firsts some (rs.map Record.name) ∧
      ∀ r ∈ t.records, (∀ s, group r.name rs = [s] → r = s) ∧
        (2 ≤ (group r.name rs).length → r.Contents (group r.name rs)) := by
  obtain ⟨t, ht, hrep⟩ := represents_ofRecords hkeys
  refine ⟨t, ht, by rw [hrep.names, Keyed.distinct_eq_firsts], fun r hr => ?_⟩
  have hget := get?_of_mem hr
  rw [hrep.get] at hget
  refine ⟨fun s hs => ?_, fun hlen => Record.contents_mergeAll hlen hget⟩
  rw [hs, Record.mergeAll_singleton] at hget
  exact (Option.some.inj hget).symm

/-- Three records of one namespace, from the oldest to the newest, and one of another. -/
def storageRecords : List Record :=
  [{ name := "storage"
     functions := [⟨.str "get", .bool false, .null, [], none, .bool false, false⟩]
     events := [⟨.str "onChanged", .bool false, .null, [], none, .bool false, false⟩]
     types := [⟨{ id := .str "Area" }, .any⟩]
     properties := [⟨"local", ⟨{}, .any⟩⟩] },
   { name := "tabs" },
   { name := "storage"
     description := .str "Stored values."
     events := [⟨.str "onChanged", .bool false, .str "newer", [], none, .bool false, false⟩] },
   { name := "storage"
     functions := [⟨.str "get", .bool false, .str "newer", [], none, .bool false, false⟩]
     types := [⟨{ id := .str "Area" }, .boolean⟩, ⟨{ extends? := .str "Area" }, .any⟩]
     properties := [⟨"sync", ⟨{}, .any⟩⟩, ⟨"local", ⟨{}, .boolean⟩⟩] }]

theorem ofRecords_contents_storage :
    (∀ r ∈ storageRecords, r.hasKeys = true) ∧
      ∃ t, ofRecords storageRecords = .ok t ∧
        t.names = Keyed.firsts some (storageRecords.map Record.name) ∧
        ∀ r ∈ t.records, (∀ s, group r.name storageRecords = [s] → r = s) ∧
          (2 ≤ (group r.name storageRecords).length →
            r.Contents (group r.name storageRecords)) :=
  ⟨by decide, ofRecords_contents (by decide)⟩

end Typings.Table
