/-!
# Lists with keys

Dictionaries that remember the order in which their keys came: lists whose members carry
a key. A member that is put into such a list takes the place of the one with its key, so
a key keeps its first place and shows its last value.

A member without a key is never replaced and replaces nothing. The lemmas say what can be found
under a key after a step, that keys never come twice, and that a step moves no key that was there.
-/

namespace Typings.Keyed

variable {α κ : Type} [DecidableEq κ]

/-- The first member with the key `k`. -/
def find? (key : α → κ) (k : κ) : List α → Option α
  | [] => none
  | a :: as => if key a = k then some a else find? key k as

/-- Put `a` in the place of the first member with its key, or behind all members. -/
def put (key : α → κ) (a : α) : List α → List α
  | [] => [a]
  | b :: bs => if key b = key a then a :: bs else b :: put key a bs

/-- Put the members of `new` into a list, one after the other. -/
def putAll (key : α → κ) (old new : List α) : List α := new.foldl (fun as a => put key a as) old

/-- The members whose key differs from those of all earlier members and from all of `seen`.
A member without a key is kept. -/
def distinctFrom (key : α → Option κ) (seen : List κ) : List α → List α
  | [] => []
  | a :: as =>
    match key a with
    | none => a :: distinctFrom key seen as
    | some k =>
      if k ∈ seen then distinctFrom key seen as else a :: distinctFrom key (k :: seen) as

/-- The members whose key differs from those of all earlier members. -/
def distinct (key : α → Option κ) (as : List α) : List α := distinctFrom key [] as

/-- The keys after a `put`: an old key stays in its place and a new one comes last. -/
theorem map_put (key : α → κ) (a : α) (as : List α) :
    (put key a as).map key = if key a ∈ as.map key then as.map key else as.map key ++ [key a] := by
  induction as with
  | nil => simp [put]
  | cons b bs ih =>
    by_cases h : key b = key a
    · simp [put, h]
    · simp only [put, h, if_false, List.map_cons, ih, List.mem_cons, Ne.symm h, false_or]
      split <;> simp

/-- No key comes twice after a `put` into a list in which none did. -/
theorem nodup_map_put {key : α → κ} {as : List α} (a : α) (h : (as.map key).Nodup) :
    ((put key a as).map key).Nodup := by
  rw [map_put]
  split
  · exact h
  · next hn =>
    refine List.nodup_append.2 ⟨h, by simp, ?_⟩
    rintro x hx y hy rfl
    exact hn (List.mem_singleton.1 hy ▸ hx)

theorem nodup_map_putAll {key : α → κ} {old : List α} (new : List α)
    (h : (old.map key).Nodup) : ((putAll key old new).map key).Nodup := by
  induction new generalizing old with
  | nil => exact h
  | cons a new ih => exact ih (nodup_map_put a h)

/-- What was put is found again, and the other members are found as before. -/
theorem find?_put (key : α → κ) (a : α) (as : List α) (k : κ) :
    find? key k (put key a as) = if key a = k then some a else find? key k as := by
  induction as with
  | nil => simp [put, find?]
  | cons b bs ih =>
    by_cases h : key b = key a
    · by_cases hk : key a = k <;> simp [put, find?, h, hk]
    · by_cases hk : key b = k
      · subst hk
        simp [put, find?, h, Ne.symm h]
      · simp [put, find?, h, hk, ih]

theorem find?_eq_none_iff {key : α → κ} {k : κ} {as : List α} :
    find? key k as = none ↔ k ∉ as.map key := by
  induction as with
  | nil => simp [find?]
  | cons b bs ih =>
    by_cases h : key b = k
    · simp [find?, h]
    · simp [find?, h, ih, Ne.symm h]

theorem key_of_find? {key : α → κ} {k : κ} {as : List α} {a : α} (h : find? key k as = some a) :
    key a = k := by
  induction as with
  | nil => simp [find?] at h
  | cons b bs ih =>
    by_cases hb : key b = k
    · simp_all [find?]
    · exact ih (by simpa [find?, hb] using h)

theorem mem_of_find? {key : α → κ} {k : κ} {as : List α} {a : α} (h : find? key k as = some a) :
    a ∈ as := by
  induction as with
  | nil => simp [find?] at h
  | cons b bs ih =>
    by_cases hb : key b = k
    · simp_all [find?]
    · exact List.mem_cons_of_mem _ (ih (by simpa [find?, hb] using h))

end Typings.Keyed
