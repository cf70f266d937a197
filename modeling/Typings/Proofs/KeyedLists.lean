import Typings.Order.Keyed

/-!
# Laws of lists with keys

What `distinct` and `putAll` do to a whole list, told without the recursion that does it.

Taking the distinct members of a list is a filter: a member is dropped exactly if its key
is one of the keys before it. So it does not matter whether the parts of a list have been
thinned out already before the whole list is (`distinct_append_left`,
`distinct_append_right`), and this is all that merging many times over ever relies on.

A list with pairwise different keys is determined by its keys, in order, and by the member
that each key finds (`eq_of_find?_eq`). Both are easy to say of `putAll`.
-/

namespace Typings.Keyed

variable {α κ : Type} [DecidableEq κ]

/-- Is the key of `a` none of `ks`? A member without a key is always fresh. -/
def isFresh (key : α → Option κ) (ks : List κ) (a : α) : Bool := (key a).all fun k => k ∉ ks

theorem isFresh_none {key : α → Option κ} {a : α} (h : key a = none) (ks : List κ) :
    isFresh key ks a = true := by
  unfold isFresh; rw [h]; rfl

theorem isFresh_some {key : α → Option κ} {a : α} {k : κ} (h : key a = some k) (ks : List κ) :
    isFresh key ks a = decide (k ∉ ks) := by
  unfold isFresh; rw [h]; rfl

theorem isFresh_of_notMem {key : α → Option κ} {a : α} {k : κ} {ks : List κ} (h : key a = some k)
    (hk : k ∉ ks) : isFresh key ks a = true := by
  rw [isFresh_some h]
  exact decide_eq_true hk

theorem not_isFresh_of_mem {key : α → Option κ} {a : α} {k : κ} {ks : List κ} (h : key a = some k)
    (hk : k ∈ ks) : ¬ isFresh key ks a = true := by
  rw [isFresh_some h, decide_eq_true_iff]
  exact fun hne => hne hk

@[simp] theorem isFresh_nil (key : α → Option κ) (a : α) : isFresh key [] a = true := by
  cases h : key a with
  | none => exact isFresh_none h []
  | some k => exact isFresh_of_notMem h List.not_mem_nil

theorem isFresh_append (key : α → Option κ) (ks ls : List κ) (a : α) :
    isFresh key (ks ++ ls) a = (isFresh key ks a && isFresh key ls a) := by
  cases h : key a with
  | none => rw [isFresh_none h, isFresh_none h, isFresh_none h]; rfl
  | some k => rw [isFresh_some h, isFresh_some h, isFresh_some h]; simp

/-- Only which keys there are counts, not how often or in which order. -/
theorem isFresh_congr {key : α → Option κ} {ks ls : List κ} (h : ∀ k, k ∈ ks ↔ k ∈ ls) :
    isFresh key ks = isFresh key ls := by
  funext a
  unfold isFresh
  simp only [h]

/-! ## Distinct members -/

/-- Members that are thinned out against `k` need no second look for it. -/
theorem filter_isFresh_of_mem {key : α → Option κ} {k : κ} {ks : List κ} (h : k ∈ ks)
    (as : List α) :
    (as.filter (isFresh key [k])).filter (isFresh key ks) = as.filter (isFresh key ks) := by
  rw [List.filter_filter]
  refine List.filter_congr (fun a _ => ?_)
  rw [← isFresh_append]
  refine congrFun (isFresh_congr (fun x => ?_)) a
  rw [List.mem_append, List.mem_singleton]
  exact ⟨fun hx => hx.elim id (fun he => he ▸ h), Or.inl⟩

theorem distinctFrom_eq_filter (key : α → Option κ) (seen : List κ) (as : List α) :
    distinctFrom key seen as = (distinct key as).filter (isFresh key seen) := by
  unfold distinct
  induction as generalizing seen with
  | nil => rfl
  | cons a as ih =>
    cases h : key a with
    | none =>
      simp only [distinctFrom, h]
      rw [List.filter_cons_of_pos (isFresh_none h seen), ih seen]
    | some k =>
      simp only [distinctFrom, h, List.not_mem_nil, if_false]
      by_cases hk : k ∈ seen
      · -- the member is dropped, and so is everything that its key drops
        rw [if_pos hk, List.filter_cons_of_neg (not_isFresh_of_mem h hk), ih seen, ih [k],
          filter_isFresh_of_mem hk]
      · -- the member stays, and its key counts as seen from here on
        rw [if_neg hk, List.filter_cons_of_pos (isFresh_of_notMem h hk), ih (k :: seen),
          ih [k], List.filter_filter]
        refine congrArg (a :: ·) (List.filter_congr (fun b _ => ?_))
        rw [← isFresh_append]
        exact congrFun (isFresh_congr (by simp [or_comm])) b

theorem distinct_cons (key : α → Option κ) (a : α) (as : List α) :
    distinct key (a :: as) = a :: (distinct key as).filter (isFresh key (key a).toList) := by
  cases h : key a with
  | none =>
    simp only [distinct, distinctFrom, h, Option.toList_none]
    rw [List.filter_eq_self.mpr (fun b _ => isFresh_nil key b)]
  | some k =>
    show distinctFrom key [] (a :: as) = _
    simp only [distinctFrom, h, List.not_mem_nil, if_false]
    rw [distinctFrom_eq_filter]
    rfl

theorem distinct_ne_nil {key : α → Option κ} {as : List α} (h : as ≠ []) :
    distinct key as ≠ [] := by
  obtain ⟨a, as, rfl⟩ := List.exists_cons_of_ne_nil h
  rw [distinct_cons]
  exact List.cons_ne_nil _ _

theorem filterMap_cons_toList {β ι : Type} (key : β → Option ι) (a : β) (as : List β) :
    (a :: as).filterMap key = (key a).toList ++ as.filterMap key := by
  cases h : key a with
  | none => rw [List.filterMap_cons_none h]; rfl
  | some k => rw [List.filterMap_cons_some h]; rfl

/-- Of two lists in a row the second one keeps what the first one has no key of. -/
theorem distinct_append (key : α → Option κ) (as bs : List α) :
    distinct key (as ++ bs) =
      distinct key as ++ (distinct key bs).filter (isFresh key (as.filterMap key)) := by
  induction as with
  | nil => exact (List.filter_eq_self.mpr (fun b _ => isFresh_nil key b)).symm
  | cons a as ih =>
    rw [List.cons_append, distinct_cons, ih, distinct_cons, List.filter_append, List.filter_filter,
      filterMap_cons_toList, List.cons_append]
    refine congrArg (a :: _ ++ ·) (List.filter_congr (fun b _ => ?_))
    exact (isFresh_append key _ _ b).symm

/-- **Thinning out commutes with leaving out**, if members with the same key are left out
together. -/
theorem distinct_filter_of_key {key : α → Option κ} {keep : α → Bool}
    (h : ∀ a b, key a = key b → keep a = keep b) (as : List α) :
    distinct key (as.filter keep) = (distinct key as).filter keep := by
  induction as with
  | nil => rfl
  | cons a as ih =>
    by_cases ha : keep a = true
    · rw [List.filter_cons_of_pos ha, distinct_cons, ih, distinct_cons,
        List.filter_cons_of_pos ha, List.filter_filter, List.filter_filter]
      simp only [Bool.and_comm]
    · rw [List.filter_cons_of_neg ha, distinct_cons, List.filter_cons_of_neg ha, ih,
        List.filter_filter]
      -- what is dropped because of `a` has its key, and is left out anyway
      refine List.filter_congr fun b _ => ?_
      cases hfresh : isFresh key (key a).toList b with
      | true => rw [Bool.and_true]
      | false =>
        have hkey : key a = key b := by
          cases hb : key b with
          | none => rw [isFresh_none hb] at hfresh; cases hfresh
          | some k =>
            rw [isFresh_some hb] at hfresh
            exact Option.mem_toList.mp (by simpa using hfresh)
        rw [← h a b hkey, Bool.and_false]
        simpa using ha

theorem distinct_filter (key : α → Option κ) (ks : List κ) (as : List α) :
    distinct key (as.filter (isFresh key ks)) = (distinct key as).filter (isFresh key ks) :=
  distinct_filter_of_key (fun a b h => by unfold isFresh; rw [h]) as

theorem distinct_distinct (key : α → Option κ) (as : List α) :
    distinct key (distinct key as) = distinct key as := by
  induction as with
  | nil => rfl
  | cons a as ih =>
    rw [distinct_cons, distinct_cons, distinct_filter, ih, List.filter_filter]
    simp only [Bool.and_self]

/-- Where every key comes once, there is nothing to thin out. -/
theorem distinct_of_nodup {key : α → Option κ} {as : List α} (h : (as.filterMap key).Nodup) :
    distinct key as = as := by
  induction as with
  | nil => rfl
  | cons a as ih =>
    rw [filterMap_cons_toList] at h
    obtain ⟨-, has, hdisjoint⟩ := List.nodup_append.mp h
    rw [distinct_cons, ih has]
    -- the head filters nothing, as its key does not come again
    refine congrArg (a :: ·) (List.filter_eq_self.mpr fun b hb => ?_)
    cases hk : key b with
    | none => exact isFresh_none hk _
    | some k =>
      refine isFresh_of_notMem hk fun hmem => ?_
      exact hdisjoint k hmem k (List.mem_filterMap.mpr ⟨b, hb, hk⟩) rfl

/-- Thinning out loses no key. -/
theorem mem_keys_distinct {key : α → Option κ} {as : List α} {k : κ} :
    k ∈ (distinct key as).filterMap key ↔ k ∈ as.filterMap key := by
  induction as with
  | nil => rfl
  | cons a as ih =>
    rw [distinct_cons, filterMap_cons_toList, filterMap_cons_toList, List.mem_append,
      List.mem_append, ← ih]
    -- the head has the key, or it does not touch what has it
    by_cases ha : k ∈ (key a).toList
    · simp [ha]
    · simp only [ha, false_or, List.mem_filterMap, List.mem_filter]
      constructor
      · rintro ⟨b, ⟨hb, -⟩, hk⟩
        exact ⟨b, hb, hk⟩
      · rintro ⟨b, hb, hk⟩
        exact ⟨b, ⟨hb, isFresh_of_notMem hk ha⟩, hk⟩

/-- **What has been thinned out has every key once.** -/
theorem nodup_keys_distinct (key : α → Option κ) (as : List α) :
    ((distinct key as).filterMap key).Nodup := by
  induction as with
  | nil => exact List.nodup_nil
  | cons a as ih =>
    rw [distinct_cons, filterMap_cons_toList]
    have hrest := ih.sublist
      ((List.filter_sublist (p := isFresh key (key a).toList)).filterMap key)
    have hself : (key a).toList.Nodup := by cases key a <;> simp
    -- what stays behind the head is fresh for its key
    refine List.nodup_append.mpr ⟨hself, hrest, ?_⟩
    rintro k hk _ hmem rfl
    obtain ⟨b, hb, hbk⟩ := List.mem_filterMap.mp hmem
    exact not_isFresh_of_mem hbk hk (List.mem_filter.mp hb).2

/-- **A list need not be thinned out before more is put behind it.** -/
theorem distinct_append_left (key : α → Option κ) (as bs : List α) :
    distinct key (distinct key as ++ bs) = distinct key (as ++ bs) := by
  rw [distinct_append, distinct_append, distinct_distinct,
    isFresh_congr (fun k => mem_keys_distinct)]

/-- **Nor before it is put behind another one.** -/
theorem distinct_append_right (key : α → Option κ) (as bs : List α) :
    distinct key (as ++ distinct key bs) = distinct key (as ++ bs) := by
  rw [distinct_append, distinct_append, distinct_distinct]

theorem mem_of_mem_distinct {key : α → Option κ} {as : List α} {a : α}
    (h : a ∈ distinct key as) : a ∈ as := by
  induction as with
  | nil => exact h
  | cons b bs ih =>
    rw [distinct_cons] at h
    rcases List.mem_cons.mp h with h | h
    · exact h ▸ List.mem_cons_self
    · exact List.mem_cons_of_mem b (ih (List.mem_filter.mp h).1)

/-- A list whose parts have been thinned out one by one thins out like the list itself. -/
theorem distinct_flatMap_distinct {β : Type} (key : α → Option κ) (f : β → List α) (bs : List β) :
    distinct key (bs.flatMap fun b => distinct key (f b)) = distinct key (bs.flatMap f) := by
  induction bs with
  | nil => rfl
  | cons b bs ih =>
    rw [List.flatMap_cons, List.flatMap_cons, distinct_append_left, ← distinct_append_right, ih,
      distinct_append_right]

/-- Members that come with `k` add nothing new to those that `k` has brought already. -/
theorem filter_flatMap_isFresh {β : Type} [DecidableEq β] (f : κ → List β) (k : κ) (ks : List κ) :
    ((ks.filter (isFresh some [k])).flatMap f).filter (isFresh some (f k)) =
      (ks.flatMap f).filter (isFresh some (f k)) := by
  induction ks with
  | nil => rfl
  | cons l ks ih =>
    rw [List.flatMap_cons, List.filter_append, ← ih]
    -- what comes with the same key adds nothing, and anything else is left alone
    by_cases hl : l = k
    · have hnone : (f l).filter (isFresh some (f k)) = [] := by
        rw [hl, List.filter_eq_nil_iff]
        intro b hb
        exact not_isFresh_of_mem rfl hb
      have hmem : l ∈ [k] := List.mem_singleton.mpr hl
      rw [List.filter_cons_of_neg (not_isFresh_of_mem rfl hmem), hnone, List.nil_append]
    · have hmem : l ∉ [k] := fun hmem => hl (List.mem_singleton.mp hmem)
      rw [List.filter_cons_of_pos (isFresh_of_notMem rfl hmem), List.flatMap_cons,
        List.filter_append]

/-- **What is brought in many times is brought in once.** -/
theorem distinct_flatMap_some {β : Type} [DecidableEq β] (f : κ → List β) (ks : List κ) :
    distinct some ((distinct some ks).flatMap f) = distinct some (ks.flatMap f) := by
  induction ks with
  | nil => rfl
  | cons k ks ih =>
    have hkeys : (f k).filterMap some = f k := List.filterMap_some
    rw [distinct_cons, List.flatMap_cons, List.flatMap_cons, distinct_append, distinct_append,
      hkeys, ← ih, ← distinct_filter some (f k), ← distinct_filter some (f k), Option.toList_some,
      filter_flatMap_isFresh]

/-! ## Names -/

theorem distinct_some_of_nodup {ks : List κ} (h : ks.Nodup) : distinct some ks = ks :=
  distinct_of_nodup (by rwa [List.filterMap_some])

theorem distinct_some_concat {ks : List κ} (h : ks.Nodup) (k : κ) :
    distinct some (ks ++ [k]) = if k ∈ ks then ks else ks ++ [k] := by
  have hone : distinct some [k] = [k] := distinct_some_of_nodup (by simp)
  have hks : ks.filterMap some = ks := List.filterMap_some
  rw [distinct_append, distinct_some_of_nodup h, hone, hks]
  by_cases hk : k ∈ ks
  · rw [if_pos hk, List.filter_cons_of_neg (not_isFresh_of_mem rfl hk)]
    exact List.append_nil ks
  · rw [if_neg hk, List.filter_cons_of_pos (isFresh_of_notMem rfl hk)]
    rfl

/-! ## Lookup -/

/-- A key is found as before if no member with it is left out. -/
theorem find?_filter {key : α → κ} {k : κ} {keep : α → Bool} (h : ∀ a, key a = k → keep a = true)
    (as : List α) : find? key k (as.filter keep) = find? key k as := by
  induction as with
  | nil => rfl
  | cons a as ih =>
    by_cases ha : key a = k
    · simp [find?, h a ha, ha]
    · rw [List.filter_cons]
      split <;> simp [find?, ha, ih]

/-- Members that keep their keys are found where they were. -/
theorem find?_map {key : α → κ} {f : α → α} (h : ∀ a, key (f a) = key a) (k : κ) (as : List α) :
    find? key k (as.map f) = (find? key k as).map f := by
  induction as with
  | nil => rfl
  | cons a as ih =>
    by_cases ha : key a = k <;> simp [find?, h, ha, ih]

theorem find?_append (key : α → κ) (k : κ) (as bs : List α) :
    find? key k (as ++ bs) = (find? key k as).or (find? key k bs) := by
  induction as with
  | nil => rfl
  | cons a as ih =>
    by_cases h : key a = k
    · simp [find?, h]
    · simp [find?, h, ih]

/-- Where every key comes once, it does not matter from which end it is looked for. -/
theorem find?_reverse {key : α → κ} {as : List α} (h : (as.map key).Nodup) (k : κ) :
    find? key k as.reverse = find? key k as := by
  induction as with
  | nil => rfl
  | cons a as ih =>
    obtain ⟨ha, has⟩ := List.nodup_cons.mp h
    rw [List.reverse_cons, find?_append, ih has]
    by_cases hk : key a = k
    · -- the last member is the only one with this key
      have hnone : find? key k as = none := find?_eq_none_iff.mpr (hk ▸ ha)
      rw [hnone]
      simp [find?, hk]
    · simp [find?, hk]

/-- Where every key comes once, what has a key is what the key finds. -/
theorem filter_key_eq {key : α → κ} {as : List α} (h : (as.map key).Nodup) (k : κ) :
    as.filter (fun a => key a = k) = (find? key k as).toList := by
  induction as with
  | nil => rfl
  | cons a as ih =>
    obtain ⟨ha, has⟩ := List.nodup_cons.mp h
    by_cases hk : key a = k
    · have hnone : find? key k as = none := find?_eq_none_iff.mpr (hk ▸ ha)
      rw [List.filter_cons_of_pos (by simpa using hk), ih has, hnone]
      simp [find?, hk]
    · rw [List.filter_cons_of_neg (by simpa using hk), ih has]
      simp [find?, hk]

/-- Where no key comes twice, looking a key up does not depend on the order. -/
theorem find?_perm {key : α → κ} {as bs : List α} (h : as.Perm bs) (hnodup : (as.map key).Nodup)
    (k : κ) : find? key k as = find? key k bs := by
  have hperm := h.filter fun a => key a = k
  rw [filter_key_eq hnodup, filter_key_eq ((h.map key).nodup_iff.mp hnodup)] at hperm
  -- each side has one member at most
  cases ha : find? key k as with
  | none =>
    rw [ha] at hperm
    exact (Option.toList_eq_nil_iff.mp (List.nil_perm.mp hperm)).symm
  | some a =>
    rw [ha] at hperm
    exact (Option.toList_eq_singleton_iff.mp (List.singleton_perm.mp hperm).symm).symm

/-- **A list with pairwise different keys is its keys and what they find.** -/
theorem eq_of_find?_eq {key : α → κ} {as bs : List α} (h : (as.map key).Nodup)
    (hkeys : as.map key = bs.map key) (hfind : ∀ k, find? key k as = find? key k bs) : as = bs := by
  induction as generalizing bs with
  | nil => exact (List.map_eq_nil_iff.mp hkeys.symm).symm
  | cons a as ih =>
    cases bs with
    | nil => exact absurd hkeys (by simp)
    | cons b bs =>
      obtain ⟨hab, hrest⟩ : key a = key b ∧ as.map key = bs.map key := by simpa using hkeys
      obtain ⟨ha, has⟩ := List.nodup_cons.mp h
      have hhead : a = b := by
        have := hfind (key a)
        simpa [find?, hab] using this
      subst hhead
      refine congrArg (a :: ·) (ih has hrest (fun k => ?_))
      by_cases hk : key a = k
      · -- the key of the head comes in neither tail
        subst hk
        rw [find?_eq_none_iff.mpr ha, find?_eq_none_iff.mpr (hrest ▸ ha)]
      · simpa [find?, hk] using hfind k

/-! ## Putting many members -/

theorem map_put_eq_distinct {key : α → κ} {as : List α} (h : (as.map key).Nodup) (a : α) :
    (put key a as).map key = distinct some (as.map key ++ [key a]) := by
  rw [map_put, distinct_some_concat h]

theorem mem_of_mem_put {key : α → κ} {a b : α} {as : List α} (h : b ∈ put key a as) :
    b = a ∨ b ∈ as := by
  induction as with
  | nil => exact Or.inl (List.mem_singleton.mp h)
  | cons c cs ih =>
    rw [put] at h
    split at h
    -- either the head is replaced, or it stays and the rest is searched
    · rcases List.mem_cons.mp h with h | h
      · exact Or.inl h
      · exact Or.inr (List.mem_cons_of_mem _ h)
    · rcases List.mem_cons.mp h with h | h
      · exact Or.inr (h ▸ List.mem_cons_self)
      · exact (ih h).imp id (List.mem_cons_of_mem _)

/-- What is there after many members have been put was there before, or is one of them. -/
theorem mem_of_mem_putAll {key : α → κ} {b : α} {old new : List α}
    (h : b ∈ putAll key old new) : b ∈ old ∨ b ∈ new := by
  induction new generalizing old with
  | nil => exact Or.inl h
  | cons a new ih =>
    rcases ih h with h | h
    · rcases mem_of_mem_put h with h | h
      · exact Or.inr (h ▸ List.mem_cons_self)
      · exact Or.inl h
    · exact Or.inr (List.mem_cons_of_mem _ h)

/-- The keys that are there after all of `new` has been put, in order of first appearance. -/
theorem map_putAll {key : α → κ} {old : List α} (h : (old.map key).Nodup) (new : List α) :
    (putAll key old new).map key = distinct some (old.map key ++ new.map key) := by
  induction new generalizing old with
  | nil =>
    rw [List.map_nil, List.append_nil, distinct_some_of_nodup h]
    rfl
  | cons a new ih =>
    show (putAll key (put key a old) new).map key = _
    rw [ih (nodup_map_put a h), map_put_eq_distinct h, distinct_append_left, List.append_assoc]
    rfl

/-- The last member of `new` with a key is what the key finds, and else what it found before. -/
theorem find?_putAll (key : α → κ) (old new : List α) (k : κ) :
    find? key k (putAll key old new) = (find? key k new.reverse).or (find? key k old) := by
  induction new generalizing old with
  | nil => rfl
  | cons a new ih =>
    show find? key k (putAll key (put key a old) new) = _
    rw [ih, find?_put, List.reverse_cons, find?_append, Option.or_assoc]
    by_cases h : key a = k <;> simp [find?, h]

/-- **What is put in two rounds can be put together first.** -/
theorem putAll_putAll {key : α → κ} {as bs cs : List α} (ha : (as.map key).Nodup)
    (hb : (bs.map key).Nodup) (hc : (cs.map key).Nodup) :
    putAll key (putAll key as bs) cs = putAll key as (putAll key bs cs) := by
  refine eq_of_find?_eq (nodup_map_putAll cs (nodup_map_putAll bs ha)) ?_ (fun k => ?_)
  · rw [map_putAll (nodup_map_putAll bs ha), map_putAll ha, map_putAll ha, map_putAll hb,
      distinct_append_left, distinct_append_right, List.append_assoc]
  · rw [find?_putAll, find?_putAll, find?_putAll, find?_reverse (nodup_map_putAll cs hb),
      find?_putAll, find?_reverse hb, find?_reverse hc, Option.or_assoc]

end Typings.Keyed
