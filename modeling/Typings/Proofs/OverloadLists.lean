import Typings.Signature.Overload

/-!
# Leaving out one parameter after the other

Overloads are made by a loop: a parameter to leave out is looked for, left out, and the next one is
looked for in what is left. Each time the whole list is looked at again, since whether a parameter
may be left out depends on what is behind it, and on whether any parameter is required at all.

**One step.** The parameter that is found is optional, and behind it stands one that stays in every
overload: a required one, or the last one of all if none is required. Leaving it out changes
neither. A list in which some parameter is required still has it, one in which none is still has
none, and what stays is still there (`split_of_first?`, `all_eraseIdx`, `hasFixed_eraseIdx`).

**The whole loop.** So the condition can be fixed before the loop starts, and then the loop is a
recursion over the list (`shortened`), which looks at every parameter once. `lists_eq_shortened`
says that both give the same lists, in the same order. The bound on the number of steps does not
matter, because it is the length of the list.
-/

namespace Typings.Overload

variable {α : Type} {optional : α → Bool} {stays : List α → Bool}

/-- The parameter lists in which some parameter is left out: in the first list the first one, in
the next list the first two, and so on. A parameter is left out if it is optional and the list
behind it is one that `stays`. -/
def shortened (optional : α → Bool) (stays : List α → Bool) : List α → List (List α)
  | [] => []
  | p :: ps =>
    if optional p && stays ps then ps :: shortened optional stays ps
    else (shortened optional stays ps).map (p :: ·)

/-- Does a list hold a parameter that stays in every signature? That is a required one,
or the last one of all if `allOptional`. -/
def hasFixed (optional : α → Bool) (allOptional : Bool) (ps : List α) : Bool :=
  if allOptional then !ps.isEmpty else ps.any fun p => !optional p

/-! ## The parameter that is found -/

/-- The place of the first parameter that is optional and has a list behind it that `stays`. -/
def first? (optional : α → Bool) (stays : List α → Bool) : List α → Option Nat
  | [] => none
  | p :: ps => if optional p && stays ps then some 0 else (first? optional stays ps).map (· + 1)

theorem lastRequired?_of_all {ps : List α} (hall : ps.all optional = true) :
    lastRequired? optional ps = none := by
  induction ps with
  | nil => rfl
  | cons p ps ih =>
    obtain ⟨hp, hps⟩ := Bool.and_eq_true_iff.mp (List.all_cons.symm.trans hall)
    rw [lastRequired?, ih hps]
    exact if_pos hp

/-- Nothing is found where nothing that could stand behind it stays. -/
theorem first?_eq_none {ps : List α}
    (hnone : ∀ front back, ps = front ++ back → stays back = false) :
    first? optional stays ps = none := by
  induction ps with
  | nil => rfl
  | cons p ps ih =>
    have hps : stays ps = false := hnone [p] ps rfl
    have hrest := ih fun front back heq => hnone (p :: front) back (by rw [heq]; rfl)
    rw [first?, hps, Bool.and_false, hrest]
    rfl

/-- Where some parameter is required, the optional ones in front of the last such one are those
with a required one behind them. -/
theorem findIdx?_take {ps : List α} (hsome : (ps.any fun p => !optional p) = true) :
    ∃ i, lastRequired? optional ps = some i ∧ (ps.take i).findIdx? optional =
      first? optional (fun rest => rest.any fun p => !optional p) ps := by
  induction ps with
  | nil => cases hsome
  | cons p ps ih =>
    cases hps : ps.any fun p => !optional p with
    | true =>
      obtain ⟨i, hlast, hfind⟩ := ih hps
      refine ⟨i + 1, by rw [lastRequired?, hlast], ?_⟩
      rw [List.take_succ_cons, List.findIdx?_cons, hfind, first?, hps, Bool.and_true]
    | false =>
      -- the last required parameter is the first one of the list
      have hall : ps.all optional = true := by simpa [List.any_eq_not_all_not] using hps
      have hp : optional p = false := by simpa [hps] using hsome
      have hnone : first? optional (fun rest => rest.any fun p => !optional p) ps = none := by
        refine first?_eq_none fun front back heq => ?_
        rw [heq, List.any_append] at hps
        exact (Bool.or_eq_false_iff.mp hps).2
      refine ⟨0, by simp [lastRequired?, lastRequired?_of_all hall, hp], ?_⟩
      simp [first?, hp, hnone]

/-- **What is found is the first parameter that is optional and has one behind it that stays.** -/
theorem firstDroppable?_eq (ps : List α) : firstDroppable? optional ps =
    first? optional (hasFixed optional (ps.all optional)) ps := by
  unfold firstDroppable? candidates
  cases hall : ps.all optional with
  | true =>
    rw [lastRequired?_of_all hall]
    -- without required parameters the last one is not looked at, and any other has it behind itself
    match ps with
    | [] => rfl
    | [p] => simp [first?, hasFixed]
    | p :: q :: ps =>
      have hp : optional p = true := by simp_all
      simp [first?, hasFixed, hp, List.findIdx?_cons]
  | false =>
    have hsome : (ps.any fun p => !optional p) = true := by
      rw [List.any_eq_not_all_not]
      simpa using hall
    obtain ⟨i, hlast, hfind⟩ := findIdx?_take hsome
    rw [hlast]
    exact hfind

/-! ## One step -/

/-- The parameter that is found is optional, and the list behind it is one that `stays`. -/
theorem split_of_first? {ps : List α} {i : Nat} (hfirst : first? optional stays ps = some i) :
    ∃ front p back, ps = front ++ p :: back ∧ ps.eraseIdx i = front ++ back ∧
      optional p = true ∧ stays back = true := by
  induction ps generalizing i with
  | nil => cases hfirst
  | cons p ps ih =>
    rw [first?] at hfirst
    split at hfirst
    case isTrue hp =>
      obtain rfl := Option.some.inj hfirst
      obtain ⟨hp, hps⟩ := Bool.and_eq_true_iff.mp hp
      exact ⟨[], p, ps, rfl, rfl, hp, hps⟩
    case isFalse =>
      obtain ⟨j, hj, rfl⟩ := Option.map_eq_some_iff.mp hfirst
      obtain ⟨front, q, back, heq, herase, hq, hback⟩ := ih hj
      have hleft : (p :: ps).eraseIdx (j + 1) = p :: front ++ back := by
        rw [List.eraseIdx_cons_succ, herase, List.cons_append]
      exact ⟨p :: front, q, back, congrArg (List.cons p) heq, hleft, hq, hback⟩

/-- Leaving it out does not change whether all parameters are optional. -/
theorem all_eraseIdx {ps : List α} {i : Nat} (hfirst : first? optional stays ps = some i) :
    (ps.eraseIdx i).all optional = ps.all optional := by
  obtain ⟨front, p, back, rfl, herase, hp, -⟩ := split_of_first? hfirst
  rw [herase]
  simp [hp]

/-- **Leaving it out does not change whether something stays.** -/
theorem hasFixed_eraseIdx {allOptional : Bool} {ps : List α} {i : Nat}
    (hfirst : first? optional (hasFixed optional allOptional) ps = some i) :
    hasFixed optional allOptional (ps.eraseIdx i) = hasFixed optional allOptional ps := by
  obtain ⟨front, p, back, rfl, herase, hp, hback⟩ := split_of_first? hfirst
  rw [herase]
  cases allOptional with
  | true =>
    -- something stays behind the parameter, so neither list is empty
    have hne : (front ++ back).isEmpty = false := by
      cases back with
      | nil => cases hback
      | cons q back => cases front <;> rfl
    have hne' : (front ++ p :: back).isEmpty = false := by cases front <;> rfl
    simp only [hasFixed, if_true, hne, hne']
  | false => simp [hasFixed, hp]

/-! ## The whole loop -/

/-- The loop, with the condition fixed. -/
def loop (optional : α → Bool) (stays : List α → Bool) : Nat → List α → List (List α)
  | 0, _ => []
  | n + 1, ps =>
    match first? optional stays ps with
    | none => []
    | some i => ps.eraseIdx i :: loop optional stays n (ps.eraseIdx i)

/-- **The condition can be fixed**, as no step changes it. -/
theorem dropEach_eq_loop {allOptional : Bool} (n : Nat) {ps : List α}
    (hall : ps.all optional = allOptional) :
    dropEach optional n ps = loop optional (hasFixed optional allOptional) n ps := by
  induction n generalizing ps with
  | zero => rfl
  | succ n ih =>
    rw [dropEach, loop, firstDroppable?_eq, hall]
    cases hfirst : first? optional (hasFixed optional allOptional) ps with
    | none => rfl
    | some i => exact congrArg (List.cons _) (ih ((all_eraseIdx hfirst).trans hall))

/-- A first parameter that is kept is kept all through the loop. -/
theorem loop_cons {allOptional : Bool} {p : α} (n : Nat) {ps : List α}
    (hp : (optional p && hasFixed optional allOptional ps) = false) :
    loop optional (hasFixed optional allOptional) n (p :: ps) =
      (loop optional (hasFixed optional allOptional) n ps).map (p :: ·) := by
  induction n generalizing ps with
  | zero => rfl
  | succ n ih =>
    have hkept : ¬ (optional p && hasFixed optional allOptional ps) = true := by simp [hp]
    rw [loop, loop, first?, if_neg hkept]
    cases hfirst : first? optional (hasFixed optional allOptional) ps with
    | none => rfl
    | some i => exact congrArg (List.cons _) (ih ((hasFixed_eraseIdx hfirst).symm ▸ hp))

/-- **The loop is a recursion over the list.** -/
theorem loop_eq_shortened {allOptional : Bool} {n : Nat} {ps : List α} (hn : ps.length ≤ n) :
    loop optional (hasFixed optional allOptional) n ps =
      shortened optional (hasFixed optional allOptional) ps := by
  induction ps generalizing n with
  | nil => cases n <;> rfl
  | cons p ps ih =>
    rw [shortened]
    cases hp : optional p && hasFixed optional allOptional ps with
    -- a head that stays is looked at once only, as what is done behind it does not change that
    | false => rw [loop_cons n hp, ih (Nat.le_of_succ_le hn)]; rfl
    | true =>
      match n, hn with
      | n + 1, hn =>
        rw [loop, first?, if_pos hp]
        exact congrArg (List.cons ps) (ih (Nat.le_of_succ_le_succ hn))

/-- **The lists of all overloads**, without a loop. -/
theorem lists_eq_shortened (optional : α → Bool) (ps : List α) : lists optional ps =
    shortened optional (hasFixed optional (ps.all optional)) ps ++ [ps] := by
  rw [lists, dropEach_eq_loop _ rfl, loop_eq_shortened (Nat.le_refl _)]

/-! ## What the lists depend on -/

section Map

variable {β : Type}

theorem hasFixed_map (f : α → β) (optional : β → Bool) (allOptional : Bool) (ps : List α) :
    hasFixed optional allOptional (ps.map f) =
      hasFixed (fun a => optional (f a)) allOptional ps := by
  unfold hasFixed
  rw [List.isEmpty_map, List.any_map]
  rfl

theorem shortened_map (f : α → β) (optional : β → Bool) (stays : List β → Bool) (ps : List α) :
    shortened optional stays (ps.map f) =
      (shortened (fun a => optional (f a)) (fun as => stays (as.map f)) ps).map (List.map f) := by
  induction ps with
  | nil => rfl
  | cons p ps ih =>
    rw [List.map_cons, shortened, shortened, ih]
    split
    · rfl
    · simp only [List.map_map, Function.comp_def, List.map_cons]

/-- Parameters are left out by their place and by being optional, whatever else is known of them. -/
theorem lists_map (f : α → β) (optional : β → Bool) (ps : List α) :
    lists optional (ps.map f) = (lists (fun a => optional (f a)) ps).map (List.map f) := by
  rw [lists_eq_shortened, lists_eq_shortened, shortened_map, List.map_append, List.all_map]
  simp only [hasFixed_map, Function.comp_def, List.map_cons, List.map_nil]

end Map

theorem sublist_of_mem_shortened {as ps : List α} (h : as ∈ shortened optional stays ps) :
    as.Sublist ps := by
  induction ps generalizing as with
  | nil => exact absurd h (by simp [shortened])
  | cons p ps ih =>
    rw [shortened] at h
    split at h
    · rcases List.mem_cons.mp h with rfl | h
      · exact List.sublist_cons_self p as
      · exact (ih h).cons p
    · obtain ⟨bs, hbs, rfl⟩ := List.mem_map.mp h
      exact (ih hbs).cons_cons p

/-- An overload leaves parameters out, and does nothing else. -/
theorem sublist_of_mem_lists {as ps : List α} (h : as ∈ lists optional ps) : as.Sublist ps := by
  rw [lists_eq_shortened] at h
  rcases List.mem_append.mp h with h | h
  · exact sublist_of_mem_shortened h
  · exact List.mem_singleton.mp h ▸ List.Sublist.refl ps

/-- The last overload has all parameters. -/
theorem self_mem_lists (optional : α → Bool) (ps : List α) : ps ∈ lists optional ps :=
  List.mem_append_right _ (List.mem_singleton_self ps)

end Typings.Overload
