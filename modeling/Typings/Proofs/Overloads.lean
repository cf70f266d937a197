import Mathlib.Data.List.Nodup
import Typings.Proofs.SignatureLines

/-!
# Which overloads a function has

Only the last parameter of a list can carry the mark of one that may be left out. A parameter is
*early* if it is optional and some parameter behind it is required; what it is for is said by
overloads. The first overload leaves out the first early parameter, the next one the first two,
and so on, and the last one has all parameters. So the numbers of arguments that some overload
takes have no gap: they go from all parameters down to those that are not early, and one further
if the list ends with a callback that may be left out.

There is an exception. If no parameter is required, none is early, and yet the parameters are left
out one after the other until only the last one remains.
-/

namespace Typings

namespace Overload

variable {α : Type} {optional : α → Bool} {stays : List α → Bool}

/-! ## Places in a list -/

/-- The places of the members that are optional and have a list behind them that `stays`. -/
def places (optional : α → Bool) (stays : List α → Bool) (ps : List α) : List ℕ :=
  (List.range ps.length).filter fun i => (ps[i]?).any optional && stays (ps.drop (i + 1))

/-- The places of the members that are early: optional, with a required one behind them. -/
def early (optional : α → Bool) (ps : List α) : List ℕ :=
  places optional (fun rest => rest.any fun p => !optional p) ps

/-- A list without the members at these places. -/
def without (is : List ℕ) (ps : List α) : List α :=
  (ps.zipIdx.filter fun p => !is.contains p.2).map Prod.fst

example : early Char.isLower ['a', 'B', 'c', 'D', 'e'] = [0, 2] := by decide

example : without [0, 2] ['a', 'B', 'c', 'D', 'e'] = ['B', 'D', 'e'] := by decide

theorem places_nil : places optional stays [] = [] := rfl

theorem places_cons (p : α) (ps : List α) :
    places optional stays (p :: ps) =
      if optional p && stays ps then 0 :: (places optional stays ps).map (· + 1)
      else (places optional stays ps).map (· + 1) := by
  have hbehind : ((List.range ps.length).map Nat.succ).filter
      (fun i => ((p :: ps)[i]?).any optional && stays ((p :: ps).drop (i + 1))) =
      (places optional stays ps).map (· + 1) := by
    rw [List.filter_map]
    rfl
  unfold places at hbehind ⊢
  rw [List.length_cons, List.range_succ_eq_map, List.filter_cons, hbehind]
  rfl

@[simp] theorem without_nil (ps : List α) : without [] ps = ps := by
  simp [without, List.zipIdx_map_fst]

/-- Places behind the first one are counted from the second. -/
theorem filter_zipIdx_succ (is : List ℕ) (ps : List α) :
    ((ps.zipIdx 1).filter fun p => !(is.map (· + 1)).contains p.2).map Prod.fst =
      without is ps := by
  have hcontains : ∀ i, (is.map (· + 1)).contains (i + 1) = is.contains i := by
    intro i
    simp [List.contains_eq_mem]
  rw [List.zipIdx_succ, List.filter_map, List.map_map]
  simp only [Function.comp_def, hcontains]
  rfl

theorem without_cons_succ (is : List ℕ) (p : α) (ps : List α) :
    without (is.map (· + 1)) (p :: ps) = p :: without is ps := by
  have hfirst : (!(is.map (· + 1)).contains 0) = true := by
    simp [List.contains_eq_mem]
  rw [← filter_zipIdx_succ is ps, without, List.zipIdx_cons, List.filter_cons, if_pos hfirst,
    List.map_cons]

theorem without_cons_zero (is : List ℕ) (p : α) (ps : List α) :
    without (0 :: is.map (· + 1)) (p :: ps) = without is ps := by
  have hfirst : ¬ (!(0 :: is.map (· + 1)).contains 0) = true := by simp
  have hbehind : ∀ x ∈ ps.zipIdx 1,
      (!(0 :: is.map (· + 1)).contains x.2) = !(is.map (· + 1)).contains x.2 := by
    intro x hx
    have hpos := List.le_snd_of_mem_zipIdx hx
    have hne : x.2 ≠ 0 := by omega
    simp [hne]
  rw [← filter_zipIdx_succ is ps, without, List.zipIdx_cons, List.filter_cons, if_neg hfirst,
    List.filter_congr hbehind]

/-! ## Leaving members out from the front -/

/-- The second list is the first one without `n` members, each of which is optional and has a list
behind it that `stays`. -/
inductive Drops (optional : α → Bool) (stays : List α → Bool) : ℕ → List α → List α → Prop
  | none (ps : List α) : Drops optional stays 0 ps ps
  | drop {n : ℕ} {p : α} {ps l : List α} (hp : optional p = true) (hps : stays ps = true)
    (h : Drops optional stays n ps l) : Drops optional stays (n + 1) (p :: ps) l
  | keep {n : ℕ} {ps l : List α} (p : α) (h : Drops optional stays n ps l) :
    Drops optional stays n (p :: ps) (p :: l)

namespace Drops

variable {n : ℕ} {ps l : List α}

theorem length_add (h : Drops optional stays n ps l) : l.length + n = ps.length := by
  induction h with
  | none ps => rfl
  | drop _ _ _ ih => rw [List.length_cons]; omega
  | keep _ _ ih => rw [List.length_cons, List.length_cons]; omega

/-- **What is required is kept.** -/
theorem filter_required (h : Drops optional stays n ps l) :
    (l.filter fun p => !optional p) = ps.filter fun p => !optional p := by
  induction h with
  | none ps => rfl
  | @drop _ p _ _ hp _ _ ih =>
    have hnot : ¬ (!optional p) = true := by simp [hp]
    rw [List.filter_cons, if_neg hnot, ih]
  | keep p _ ih => rw [List.filter_cons, List.filter_cons, ih]

/-- **The last member is kept**, if nothing behind it makes it one that is left out. -/
theorem getLast?_eq (hstays : stays [] = false) (h : Drops optional stays n ps l) :
    l.getLast? = ps.getLast? := by
  induction h with
  | none ps => rfl
  | @drop _ p ps _ _ hps _ ih =>
    cases ps with
    | nil =>
      rw [hstays] at hps
      cases hps
    | cons q qs => rw [ih, List.getLast?_cons_cons]
  | keep p _ ih => rw [List.getLast?_cons, List.getLast?_cons, ih]

/-- **The optional members at the end are kept**, if only early ones are left out. -/
theorem suffix {back : List α}
    (h : Drops optional (fun rest => rest.any fun p => !optional p) n ps l)
    (hback : back <:+ ps) (hoptional : ∀ p ∈ back, optional p = true) : back <:+ l := by
  induction h generalizing back with
  | none ps => exact hback
  | drop hp hps hrest ih =>
    rcases List.suffix_cons_iff.mp hback with rfl | hback
    · -- one that is required stands behind the member that is left out
      obtain ⟨q, hq, hrequired⟩ := List.any_eq_true.mp hps
      have hq' := hoptional q (List.mem_cons_of_mem _ hq)
      rw [hq'] at hrequired
      cases hrequired
    · exact ih hback hoptional
  | @keep _ ps l p hrest ih =>
    rcases List.suffix_cons_iff.mp hback with rfl | hback
    · -- all members are optional, so none of them is left out
      have hps := ih List.suffix_rfl fun q hq => hoptional q (List.mem_cons_of_mem p hq)
      have hlength := hrest.length_add
      obtain rfl : ps = l := hps.eq_of_length_le (by omega)
      exact List.suffix_rfl
    · exact (ih hback hoptional).trans (List.suffix_cons p l)

end Drops

/-- Leaving out the first places is leaving out as many members. -/
theorem drops_without {n : ℕ} {ps : List α} (h : n ≤ (places optional stays ps).length) :
    Drops optional stays n ps (without ((places optional stays ps).take n) ps) := by
  induction ps generalizing n with
  | nil =>
    rw [places_nil, List.length_nil, Nat.le_zero] at h
    subst h
    exact .none []
  | cons p ps ih =>
    rw [places_cons] at h ⊢
    by_cases hp : (optional p && stays ps) = true
    · rw [if_pos hp] at h ⊢
      obtain ⟨hoptional, hstays⟩ := Bool.and_eq_true_iff.mp hp
      cases n with
      | zero =>
        rw [List.take_zero, without_nil]
        exact .none _
      -- the head is at the first place, so it goes, and one place less is left
      | succ n =>
        rw [List.length_cons, List.length_map] at h
        rw [List.take_succ_cons, ← List.map_take, without_cons_zero]
        exact .drop hoptional hstays (ih (by omega))
    -- the head has no place and is kept
    · rw [if_neg hp] at h ⊢
      rw [List.length_map] at h
      rw [← List.map_take, without_cons_succ]
      exact .keep p (ih h)

/-! ## The lists of all overloads -/

/-- **One list for every place**, without this member and those at the places before it. -/
theorem shortened_eq (ps : List α) :
    shortened optional stays ps =
      (List.range (places optional stays ps).length).map
        fun j => without ((places optional stays ps).take (j + 1)) ps := by
  induction ps with
  | nil => rfl
  | cons p ps ih =>
    rw [shortened, places_cons]
    by_cases hp : (optional p && stays ps) = true
    -- the head is at the first place: the first list is the tail, and the others go on from it
    · have hfirst : without ((0 :: (places optional stays ps).map (· + 1)).take 1) (p :: ps) =
          ps := by
        rw [List.take_succ_cons, List.take_zero, ← List.map_nil (f := (· + 1)),
          without_cons_zero, without_nil]
      rw [if_pos hp, if_pos hp, ih, List.length_cons, List.length_map, List.range_succ_eq_map,
        List.map_cons, List.map_map, hfirst]
      refine congrArg (List.cons ps) (List.map_congr_left fun j _ => ?_)
      rw [Function.comp_apply, List.take_succ_cons, ← List.map_take, without_cons_zero]
    · rw [if_neg hp, if_neg hp, ih, List.length_map, List.map_map]
      refine List.map_congr_left fun j _ => ?_
      rw [Function.comp_apply, ← List.map_take, without_cons_succ]

/-- The places of the members that are left out, in the order in which they are. -/
def dropped (optional : α → Bool) (ps : List α) : List ℕ :=
  places optional (hasFixed optional (ps.all optional)) ps

theorem lists_eq (ps : List α) :
    lists optional ps =
      ((List.range (dropped optional ps).length).map
        fun j => without ((dropped optional ps).take (j + 1)) ps) ++ [ps] := by
  rw [lists_eq_shortened, shortened_eq, dropped]

/-- The lists of all overloads are those that are reached by leaving members out. -/
theorem exists_drops {ps l : List α} (h : l ∈ lists optional ps) :
    ∃ n ≤ (dropped optional ps).length,
      Drops optional (hasFixed optional (ps.all optional)) n ps l := by
  rw [lists_eq] at h
  rcases List.mem_append.mp h with h | h
  · obtain ⟨j, hj, rfl⟩ := List.mem_map.mp h
    have hle : j + 1 ≤ (dropped optional ps).length := List.mem_range.mp hj
    exact ⟨j + 1, hle, drops_without hle⟩
  · obtain rfl := List.mem_singleton.mp h
    exact ⟨0, Nat.zero_le _, .none l⟩

theorem exists_mem_lists {n : ℕ} {ps : List α} (h : n ≤ (dropped optional ps).length) :
    ∃ l ∈ lists optional ps, Drops optional (hasFixed optional (ps.all optional)) n ps l := by
  rw [lists_eq]
  cases n with
  | zero => exact ⟨ps, List.mem_append_right _ (List.mem_singleton_self ps), .none ps⟩
  | succ j =>
    have hmem := List.mem_map_of_mem (f := fun j => without ((dropped optional ps).take (j + 1)) ps)
      (List.mem_range.mpr (Nat.lt_of_succ_le h))
    exact ⟨_, List.mem_append_left _ hmem, drops_without h⟩

/-- **Every required member is in every overload**, in the order of the list. -/
theorem filter_required_of_mem_lists {ps l : List α} (h : l ∈ lists optional ps) :
    (l.filter fun p => !optional p) = ps.filter fun p => !optional p := by
  obtain ⟨n, -, hdrops⟩ := exists_drops h
  exact hdrops.filter_required

/-- **No two overloads have equally many parameters.** -/
theorem nodup_length_lists (ps : List α) : ((lists optional ps).map List.length).Nodup := by
  -- each list is shorter than the one before, and the full one is longer than all of them
  have hlength : ∀ j ∈ List.range (dropped optional ps).length,
      (without ((dropped optional ps).take (j + 1)) ps).length + (j + 1) = ps.length := by
    intro j hj
    exact (drops_without (List.mem_range.mp hj)).length_add
  rw [lists_eq, List.map_append, List.map_map, List.map_singleton, List.nodup_append]
  refine ⟨?_, List.nodup_singleton _, ?_⟩
  · refine List.nodup_range.map_on fun i hi j hj hij => ?_
    have hi' := hlength i hi
    have hj' := hlength j hj
    rw [Function.comp_apply, Function.comp_apply] at hij
    omega
  · intro a ha b hb hab
    obtain ⟨j, hj, rfl⟩ := List.mem_map.mp ha
    rw [List.mem_singleton] at hb
    have hj' := hlength j hj
    rw [Function.comp_apply] at hab
    omega

/-! ## Lists without a required member -/

theorem all_optional {ps : List α} (h : ¬ ∃ p ∈ ps, optional p = false) :
    ∀ p ∈ ps, optional p = true := by
  intro p hp
  by_contra hnot
  exact h ⟨p, hp, by simpa using hnot⟩

theorem dropped_of_required {ps : List α} (h : ∃ p ∈ ps, optional p = false) :
    dropped optional ps = early optional ps := by
  have hall : ps.all optional = false := by
    obtain ⟨p, hp, hrequired⟩ := h
    exact List.all_eq_false.mpr ⟨p, hp, by rw [hrequired]; exact Bool.false_ne_true⟩
  unfold dropped
  rw [hall]
  rfl

theorem early_of_all_optional {ps : List α} (h : ∀ p ∈ ps, optional p = true) :
    early optional ps = [] := by
  unfold early places
  rw [List.filter_eq_nil_iff]
  intro i _ hi
  obtain ⟨q, hq, hrequired⟩ := List.any_eq_true.mp (Bool.and_eq_true_iff.mp hi).2
  rw [h q (List.mem_of_mem_drop hq)] at hrequired
  cases hrequired

theorem dropped_of_all_optional {ps : List α} (h : ∀ p ∈ ps, optional p = true) :
    dropped optional ps = List.range (ps.length - 1) := by
  -- with nothing required, only the last member stays
  have hplaces : dropped optional ps =
      (List.range ps.length).filter fun i => decide (i + 1 < ps.length) := by
    unfold dropped places
    rw [List.all_eq_true.mpr h]
    refine List.filter_congr fun i hi => ?_
    have hlt := List.mem_range.mp hi
    rw [List.getElem?_eq_getElem hlt, Option.any_some, h _ (List.getElem_mem hlt), Bool.true_and,
      hasFixed, if_pos rfl]
    by_cases hnext : i + 1 < ps.length
    · simp [hnext]
    · simp [hnext, Nat.le_of_not_lt hnext]
  rw [hplaces]
  cases hn : ps.length with
  | zero => rfl
  | succ n =>
    have hkept : ∀ i ∈ List.range n, decide (i + 1 < n + 1) = true := by
      intro i hi
      have hlt := List.mem_range.mp hi
      exact decide_eq_true (by omega)
    rw [List.range_succ, List.filter_append, List.filter_eq_self.mpr hkept]
    simp

theorem without_range {n : ℕ} {ps : List α} (h : n ≤ ps.length) :
    without (List.range n) ps = ps.drop n := by
  induction n generalizing ps with
  | zero => exact without_nil ps
  | succ n ih =>
    cases ps with
    | nil => cases h
    | cons p ps =>
      rw [List.range_succ_eq_map, List.drop_succ_cons]
      exact (without_cons_zero (List.range n) p ps).trans (ih (Nat.le_of_succ_le_succ h))

/-- **If all members are optional, they are left out down to the last one.** -/
theorem lists_of_all_optional {ps : List α} (h : ∀ p ∈ ps, optional p = true) :
    lists optional ps =
      ((List.range (ps.length - 1)).map fun j => ps.drop (j + 1)) ++ [ps] := by
  rw [lists_eq, dropped_of_all_optional h, List.length_range]
  refine congrArg (· ++ [ps]) (List.map_congr_left fun j hj => ?_)
  have hlt := List.mem_range.mp hj
  rw [List.take_range, Nat.min_eq_left (by omega)]
  exact without_range (by omega)

/-- Only early members are left out if some member is required, or if there is at most one. -/
theorem dropped_eq_early_iff {ps : List α} :
    dropped optional ps = early optional ps ↔
      (∃ p ∈ ps, optional p = false) ∨ ps.length ≤ 1 := by
  by_cases hrequired : ∃ p ∈ ps, optional p = false
  · exact iff_of_true (dropped_of_required hrequired) (.inl hrequired)
  · have hall := all_optional hrequired
    rw [dropped_of_all_optional hall, early_of_all_optional hall, or_iff_right hrequired,
      List.range_eq_nil]
    omega

/-- The overloads are those of the early members: one without the first of them, one without the
first two, and so on, and the list itself. So all other members are in every overload. -/
structure LeavesOutEarly (optional : α → Bool) (ps : List α) : Prop where
  lists : lists optional ps =
    ((List.range (early optional ps).length).map
      fun j => without ((early optional ps).take (j + 1)) ps) ++ [ps]
  required : ∀ l ∈ Overload.lists optional ps,
    (l.filter fun p => !optional p) = ps.filter fun p => !optional p
  trailing : ∀ back, back <:+ ps → (∀ p ∈ back, optional p = true) →
    ∀ l ∈ Overload.lists optional ps, back <:+ l
  lengths : ((Overload.lists optional ps).map List.length).Nodup

theorem leavesOutEarly_of_dropped {ps : List α} (h : dropped optional ps = early optional ps) :
    LeavesOutEarly optional ps where
  lists := h ▸ lists_eq ps
  required _ hl := filter_required_of_mem_lists hl
  trailing back hback hoptional l hl := by
    rw [lists_eq, h] at hl
    rcases List.mem_append.mp hl with hl | hl
    · obtain ⟨j, hj, rfl⟩ := List.mem_map.mp hl
      exact (drops_without (List.mem_range.mp hj)).suffix hback hoptional
    · exact List.mem_singleton.mp hl ▸ hback
  lengths := nodup_length_lists ps

/-- **The overloads are those of the early members exactly if some member is required, or if there
is at most one.** -/
theorem leavesOutEarly_iff {ps : List α} :
    LeavesOutEarly optional ps ↔ (∃ p ∈ ps, optional p = false) ∨ ps.length ≤ 1 := by
  rw [← dropped_eq_early_iff]
  refine ⟨fun h => ?_, leavesOutEarly_of_dropped⟩
  -- the number of lists tells how many members are left out
  have hlength := congrArg List.length ((lists_eq ps).symm.trans h.lists)
  simp only [List.length_append, List.length_map, List.length_range] at hlength
  rw [dropped_eq_early_iff]
  by_cases hrequired : ∃ p ∈ ps, optional p = false
  · exact .inl hrequired
  · have hall := all_optional hrequired
    rw [dropped_of_all_optional hall, early_of_all_optional hall, List.length_range,
      List.length_nil] at hlength
    exact .inr (by omega)

end Overload

/-! ## Numbers of arguments -/

namespace Input

open Overload (Drops)

/-- A call with `n` arguments fits a list of parameters: none of the arguments is too many, and
all parameters that get none carry the mark. -/
def Accepts (ps : List Input) (n : ℕ) : Prop :=
  n ≤ ps.length ∧ ∀ marked ∈ (marks ps).drop n, marked = true

/-- Does a list end with a callback that may be left out? -/
def endsWithCallback (ps : List Input) : Bool :=
  ps.getLast?.any fun p => p.optional && p.isCallback

theorem marks_concat (ps : List Input) (p : Input) :
    marks (ps ++ [p]) = List.replicate ps.length false ++ [p.optional && p.isCallback] := by
  induction ps with
  | nil => simp [marks]
  | cons q ps ih => simp [marks, ih, List.replicate_succ]

/-- **Only the last parameter of a list carries the mark.** -/
theorem marks_eq_some_true {ps : List Input} {i : ℕ} (h : (marks ps)[i]? = some true) :
    i + 1 = ps.length := by
  rcases List.eq_nil_or_concat ps with rfl | ⟨qs, p, rfl⟩
  · simp [marks] at h
  · rw [List.concat_eq_append, marks_concat] at h
    rw [List.concat_eq_append, List.length_append, List.length_singleton]
    by_cases hi : i < qs.length
    · rw [List.getElem?_append_left (by simpa using hi)] at h
      simp [hi] at h
    · have hlt := (List.getElem?_eq_some_iff.mp h).1
      simp only [List.length_append, List.length_replicate, List.length_singleton] at hlt
      omega

/-- So a list takes as many arguments as it has parameters, or one less. -/
theorem accepts_iff {ps : List Input} {n : ℕ} :
    Accepts ps n ↔ n = ps.length ∨ endsWithCallback ps = true ∧ n + 1 = ps.length := by
  unfold Accepts endsWithCallback
  rcases List.eq_nil_or_concat ps with rfl | ⟨qs, p, rfl⟩
  · simp [marks]
  · rw [List.concat_eq_append, marks_concat, List.getLast?_concat, Option.any_some,
      List.length_append, List.length_singleton]
    rcases Nat.lt_trichotomy n qs.length with hn | rfl | hn
    · -- a parameter that is not the last one gets no argument
      have hfalse : false ∈ (List.replicate qs.length false ++
          [p.optional && p.isCallback]).drop n := by
        rw [List.drop_append_of_le_length (by simpa using Nat.le_of_lt hn), List.drop_replicate]
        exact List.mem_append_left _ (List.mem_replicate.mpr ⟨by omega, rfl⟩)
      constructor
      · rintro ⟨-, hmarked⟩
        cases hmarked false hfalse
      · omega
    · rw [List.drop_append_of_le_length (by simp), List.drop_replicate]
      simp
    · rw [List.drop_of_length_le (by simp; omega)]
      simp
      omega

/-- **The numbers of arguments that some overload takes have no gap.** -/
theorem exists_accepts_iff {ps : List Input} {n : ℕ} :
    (∃ l ∈ Overload.lists optional ps, Accepts l n) ↔
      ps.length ≤ n + (Overload.dropped optional ps).length ∧ n ≤ ps.length ∨
        endsWithCallback ps = true ∧
          n + (Overload.dropped optional ps).length + 1 = ps.length := by
  -- all overloads end alike
  have hlast : ∀ {k l}, Drops optional (Overload.hasFixed optional (ps.all optional)) k ps l →
      endsWithCallback l = endsWithCallback ps := by
    intro k l hdrops
    have hstays : Overload.hasFixed optional (ps.all optional) [] = false := by
      unfold Overload.hasFixed
      split <;> rfl
    unfold endsWithCallback
    rw [hdrops.getLast?_eq hstays]
  constructor
  · rintro ⟨l, hl, haccepts⟩
    obtain ⟨k, hk, hdrops⟩ := Overload.exists_drops hl
    have hlength := hdrops.length_add
    rcases accepts_iff.mp haccepts with rfl | ⟨hcallback, hn⟩
    · exact .inl ⟨by omega, by omega⟩
    · rw [hlast hdrops] at hcallback
      by_cases hall : ps.length ≤ n + (Overload.dropped optional ps).length
      · exact .inl ⟨hall, by omega⟩
      · exact .inr ⟨hcallback, by omega⟩
  · rintro (⟨hmin, hmax⟩ | ⟨hcallback, hn⟩)
    · have hk : ps.length - n ≤ (Overload.dropped optional ps).length := by omega
      obtain ⟨l, hl, hdrops⟩ := Overload.exists_mem_lists hk
      have hlength := hdrops.length_add
      exact ⟨l, hl, accepts_iff.mpr (.inl (by omega))⟩
    · have hk := Nat.le_refl (Overload.dropped optional ps).length
      obtain ⟨l, hl, hdrops⟩ := Overload.exists_mem_lists hk
      have hlength := hdrops.length_add
      rw [← hlast hdrops] at hcallback
      exact ⟨l, hl, accepts_iff.mpr (.inr ⟨hcallback, by omega⟩)⟩

/-- The numbers of arguments are those from all parameters down to the ones that are not early,
and one less if the list ends with a callback that may be left out. -/
def AcceptsByEarly (ps : List Input) : Prop :=
  ∀ n, (∃ l ∈ Overload.lists optional ps, Accepts l n) ↔
    ps.length ≤ n + (Overload.early optional ps).length ∧ n ≤ ps.length ∨
      endsWithCallback ps = true ∧ n + (Overload.early optional ps).length + 1 = ps.length

theorem acceptsByEarly_iff {ps : List Input} :
    AcceptsByEarly ps ↔ (∃ p ∈ ps, p.optional = false) ∨ ps.length ≤ 1 := by
  rw [← Overload.dropped_eq_early_iff]
  constructor
  · intro h
    rw [Overload.dropped_eq_early_iff]
    by_contra hnot
    obtain ⟨hrequired, hlength⟩ := not_or.mp hnot
    have hall := Overload.all_optional hrequired
    have hdropped := Overload.dropped_of_all_optional hall
    have hearly := Overload.early_of_all_optional hall
    -- the overload with the last parameter alone takes one argument, and none if it is marked
    have hone := (h 1).symm.trans exists_accepts_iff
    have hnone := (h 0).symm.trans exists_accepts_iff
    rw [hdropped, hearly, List.length_range, List.length_nil] at hone hnone
    rcases hone.mpr (.inl ⟨by omega, by omega⟩) with h' | ⟨hcallback, h'⟩
    · omega
    · rcases hnone.mpr (.inr ⟨hcallback, by omega⟩) with h'' | ⟨-, h''⟩
      · omega
      · omega
  · intro h n
    rw [exists_accepts_iff, h]

end Input

namespace Signature

open Schema (Callable)

/-- If all of several parameters are optional, every number of arguments is taken from one on,
and none if the list ends with a callback. -/
theorem accepts_of_all_optional {ps : List Input} (h : ∀ p ∈ ps, p.optional = true) {n : ℕ}
    (hlength : 1 ≤ ps.length) :
    (∃ l ∈ Overload.lists Input.optional ps, Input.Accepts l n) ↔
      1 ≤ n ∧ n ≤ ps.length ∨ Input.endsWithCallback ps = true ∧ n = 0 := by
  rw [Input.exists_accepts_iff, Overload.dropped_of_all_optional h, List.length_range]
  constructor
  · rintro (⟨hmin, hmax⟩ | ⟨hcallback, hn⟩)
    · exact .inl ⟨by omega, hmax⟩
    · exact .inr ⟨hcallback, by omega⟩
  · rintro (⟨hmin, hmax⟩ | ⟨hcallback, rfl⟩)
    · exact .inl ⟨by omega, hmax⟩
    · exact .inr ⟨hcallback, by omega⟩

/-- The lines of a function are one for every overload of what callers see, between its comment
and its export. -/
theorem overloads_of_lines {style : Style} {current : String} {s : Signature} {ls : List String}
    (h : (s.lines style current).result = .ok ls) :
    ∃ doc overloads exports head returns, ls = doc ++ overloads ++ exports ∧
      List.Forall₂ (WritesOverload style head returns)
        (Overload.lists Input.optional s.visibleInputs) overloads := by
  obtain ⟨shape, hshape, doc, overloads, hmade⟩ := lines_eq_ok.mp h
  obtain ⟨renamed, head, -, -, heach, hls⟩ := hmade.overloads
  rw [← inputs_callShape hshape]
  exact ⟨doc, overloads, exports style renamed s.name, head, shape.returns, hls, heach⟩

/--
**The overloads of a function, and how many arguments they take.**

The parameters that callers see are left out as the law of early parameters says, and the numbers
of arguments are as that law says, exactly if one of the parameters is required or if there is at
most one. If none is required, they are left out one after the other until the last one remains.

In every style the lines of a function are one for each of these lists, in their order, with the
mark on the last parameter of a list only; and the lines are there if the function can be written.
-/
theorem overloads_leave_out_early (ps : List Input) :
    (Overload.LeavesOutEarly Input.optional ps ↔
      (∃ p ∈ ps, p.optional = false) ∨ ps.length ≤ 1) ∧
    (Input.AcceptsByEarly ps ↔ (∃ p ∈ ps, p.optional = false) ∨ ps.length ≤ 1) ∧
    ((∀ p ∈ ps, p.optional = true) →
      Overload.lists Input.optional ps =
        ((List.range (ps.length - 1)).map fun j => ps.drop (j + 1)) ++ [ps] ∧
      (1 ≤ ps.length → ∀ n, (∃ l ∈ Overload.lists Input.optional ps, Input.Accepts l n) ↔
        1 ≤ n ∧ n ≤ ps.length ∨ Input.endsWithCallback ps = true ∧ n = 0)) ∧
    (∀ l i, (Input.marks l)[i]? = some true → i + 1 = l.length) ∧
    ∀ (style : Style) (current : String) (s : Signature), s.visibleInputs = ps →
      (s.IsWritable → ∃ ls, (s.lines style current).result = .ok ls) ∧
      ∀ ls, (s.lines style current).result = .ok ls →
        ∃ doc overloads exports head returns, ls = doc ++ overloads ++ exports ∧
          List.Forall₂ (WritesOverload style head returns) (Overload.lists Input.optional ps)
            overloads := by
  refine ⟨Overload.leavesOutEarly_iff, Input.acceptsByEarly_iff, fun hall => ⟨?_, ?_⟩, ?_, ?_⟩
  -- first what holds of lists alone, and then what it means for the lines
  · exact Overload.lists_of_all_optional hall
  · exact fun hlength n => accepts_of_all_optional hall hlength
  · exact fun l i hmark => Input.marks_eq_some_true hmark
  · rintro style current s rfl
    exact ⟨fun hs => hs.exists_lines style current, fun ls hls => overloads_of_lines hls⟩

/-- A function with an optional parameter, a required one, and a callback that may be left out. -/
def queryFunction : Callable where
  name := .str "query"
  async := .bool false
  description := .null
  parameters := [⟨.str "filter", ⟨{ optional := true }, .string none⟩⟩,
    ⟨.str "limit", ⟨{}, .number true⟩⟩,
    ⟨.str "callback", ⟨{ optional := true }, .function [] none (.bool false)⟩⟩]
  returns := none
  deprecated := .bool false
  unsupported := false

/-- A function with two optional parameters, and no required one. -/
def findFunction : Callable where
  name := .str "find"
  async := .bool false
  description := .null
  parameters := [⟨.str "x", ⟨{ optional := true }, .string none⟩⟩,
    ⟨.str "y", ⟨{ optional := true }, .string none⟩⟩]
  returns := none
  deprecated := .bool false
  unsupported := false

/-- The functions stand in a namespace that has nothing else. -/
def bareScope : Scope := ⟨"mail", .empty⟩

theorem overloads_leave_out_early_query :
    Overload.LeavesOutEarly Input.optional (queryFunction.signature bareScope).visibleInputs ∧
    Input.AcceptsByEarly (queryFunction.signature bareScope).visibleInputs ∧
    ((queryFunction.signature bareScope).lines Style.declaration "mail").result =
      .ok ["  function query(limit: number, callback?: () => void): void;",
        "  function query(filter: string, limit: number, callback?: () => void): void;"] := by
  have hrequired : ∃ p ∈ (queryFunction.signature bareScope).visibleInputs, p.optional = false :=
    ⟨_, List.mem_cons_of_mem _ List.mem_cons_self, rfl⟩
  obtain ⟨hearly, haccepts, -⟩ :=
    overloads_leave_out_early (queryFunction.signature bareScope).visibleInputs
  exact ⟨hearly.mpr (.inl hrequired), haccepts.mpr (.inl hrequired), by cbv⟩

/-- Two optional parameters have an overload too many. -/
theorem overloads_without_required :
    ¬ Overload.LeavesOutEarly Input.optional (findFunction.signature bareScope).visibleInputs ∧
    ¬ Input.AcceptsByEarly (findFunction.signature bareScope).visibleInputs ∧
    ((findFunction.signature bareScope).lines Style.declaration "mail").result =
      .ok ["  function find(y: string): void;",
        "  function find(x: string, y: string): void;"] := by
  have hnot : ¬ ((∃ p ∈ (findFunction.signature bareScope).visibleInputs, p.optional = false) ∨
      (findFunction.signature bareScope).visibleInputs.length ≤ 1) := by
    rintro (⟨p, hp, hrequired⟩ | hlength)
    · rcases List.mem_cons.mp hp with rfl | hp
      · cases hrequired
      · rcases List.mem_cons.mp hp with rfl | hp
        · cases hrequired
        · cases hp
    · exact absurd hlength (by decide)
  exact ⟨mt Overload.leavesOutEarly_iff.mp hnot, mt Input.acceptsByEarly_iff.mp hnot, by cbv⟩

end Signature

end Typings
