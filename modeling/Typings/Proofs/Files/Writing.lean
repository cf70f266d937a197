import Mathlib.Data.List.Basic
import Typings.Proofs.KeyedLists
import Typings.Files.Tree

/-!
# What a write changes

Three properties of writing a file, each of which rests on the one before it.

**Above a place there are directories only.** A path leads to a place by a walk, and the walk goes
on from directories only. Going down from a directory, or up from one, keeps the property, so it is
an invariant of the walk (`isGrounded_of_walk`).

**A write changes one place.** The file is put below directories that exist already, so no new ones
come into being: what lies anywhere else, which places are directories and what is permitted stay
as they are (`differsAt_of_write`). A write that fails changes nothing, because it gives no tree.

**What was written is held.** The path that led to the place leads there afterwards, because no
step of the walk depends on what was written (`holds_write`). Whether the file may also be read
is another matter: it may be one that is only ever written.
-/

namespace Typings

/-- Which keys a list has after a `put`: those it had, and the new one. -/
theorem Keyed.any_map_put {α κ : Type} [DecidableEq κ] {key : α → κ} (a : α) (as : List α)
    (p : κ → Bool) : ((put key a as).map key).any p = ((as.map key).any p || p (key a)) := by
  rw [map_put]
  split
  case isTrue h =>
    cases hp : p (key a) with
    | false => rw [Bool.or_false]
    | true => rw [List.any_eq_true.mpr ⟨_, h, hp⟩, Bool.true_or]
  case isFalse => simp

namespace FileTree

variable {t t' : FileTree} {p place q : Path} {parts : List String} {bytes : List UInt8}

/-! ## Walking -/

theorem hasDirectory_of_entry? (h : t.entry? place = some .directory) :
    t.hasDirectory place = true := by
  unfold entry? at h
  split at h
  · cases h
  · split at h
    · assumption
    · cases h

/-- A walk goes on from a directory only. -/
theorem walk_cons_eq_ok {part : String} : t.walk place (part :: parts) = .ok q ↔
    (t.entry? place = some .directory ∧ t.allows .search place = true) ∧
      part.utf8ByteSize ≤ longestPart ∧
      t.walk (if part = ".." then place.up else place.child part) parts = .ok q := by
  rw [walk]
  cases t.entry? place with
  | none => simp
  | some entry =>
    cases entry with
    | file bytes => simp
    -- it must be allowed to search the directory, and the part must not be too long
    | directory =>
      cases t.allows .search place with
      | false => simp
      | true =>
        by_cases h : longestPart < part.utf8ByteSize
        · simp [h, Nat.not_le_of_lt h]
        · simp [h, Nat.le_of_not_lt h]

/-- All places above this one are directories. -/
def IsGrounded (t : FileTree) (place : Path) : Prop :=
  ∀ d, isBelow d place = true → d ≠ place → t.hasDirectory d = true

theorem isBelow_iff {d p : Path} :
    isBelow d p = true ↔ d.anchor = p.anchor ∧ d.parts <+: p.parts := by
  simp [isBelow]

theorem isGrounded_anchor (t : FileTree) (a : Anchor) : t.IsGrounded ⟨a, []⟩ := by
  intro d hbelow hne
  obtain ⟨hanchor, hparts⟩ := isBelow_iff.mp hbelow
  rcases d with ⟨anchor, parts⟩
  obtain rfl : anchor = a := hanchor
  obtain rfl : parts = [] := List.prefix_nil.mp hparts
  exact absurd rfl hne

theorem IsGrounded.child (h : t.IsGrounded place) (hdir : t.hasDirectory place = true)
    (name : String) : t.IsGrounded (place.child name) := by
  intro d hbelow hne
  obtain ⟨hanchor, hparts⟩ := isBelow_iff.mp hbelow
  rcases List.prefix_concat_iff.mp hparts with heq | hparts
  · exact absurd (show d = place.child name by cases d; cases place; simp_all [Path.child]) hne
  · by_cases hd : d = place
    · exact hd ▸ hdir
    · exact h d (isBelow_iff.mpr ⟨hanchor, hparts⟩) hd

theorem IsGrounded.up (h : t.IsGrounded place) (hdir : t.hasDirectory place = true) :
    t.IsGrounded place.up := by
  unfold Path.up
  split
  · -- above the working directory one goes up by one more double point
    exact h.child hdir ".."
  · intro d hbelow hne
    obtain ⟨hanchor, hparts⟩ := isBelow_iff.mp hbelow
    by_cases hd : d = place
    · exact hd ▸ hdir
    · exact h d (isBelow_iff.mpr ⟨hanchor, hparts.trans (List.dropLast_prefix _)⟩) hd

/-- **Above a place that a walk reaches there are directories only.** -/
theorem isGrounded_of_walk (hplace : t.IsGrounded place) (h : t.walk place parts = .ok q) :
    t.IsGrounded q := by
  induction parts generalizing place with
  | nil => exact Except.ok.inj h ▸ hplace
  | cons part parts ih =>
    obtain ⟨⟨hentry, -⟩, -, hrest⟩ := walk_cons_eq_ok.mp h
    have hdir := hasDirectory_of_entry? hentry
    refine ih ?_ hrest
    split
    · exact hplace.up hdir
    · exact hplace.child hdir part

/-- **A walk does not depend on what lies at its end**, unless it went through there. -/
theorem walk_congr (hentry : ∀ r, r ≠ q → t'.entry? r = t.entry? r)
    (hallows : ∀ access r, t'.allows access r = t.allows access r)
    (hq : t.entry? q ≠ some .directory) (h : t.walk place parts = .ok q) :
    t'.walk place parts = .ok q := by
  induction parts generalizing place with
  | nil => exact h
  | cons part parts ih =>
    obtain ⟨⟨hplace, hsearch⟩, hsize, hrest⟩ := walk_cons_eq_ok.mp h
    -- the walk goes on from here, so there is a directory, and `q` is none
    have hne : place ≠ q := by
      rintro rfl
      exact hq hplace
    exact walk_cons_eq_ok.mpr ⟨⟨(hentry place hne).trans hplace, (hallows _ place).trans hsearch⟩,
      hsize, ih hrest⟩

theorem locate_eq_ok : t.locate p = .ok place ↔
    p.toString.utf8ByteSize ≤ longestPath ∧ t.walk ⟨p.anchor, []⟩ p.parts = .ok place := by
  unfold locate
  split <;> simp <;> omega

theorem locateToOpen_eq_ok :
    t.locateToOpen p = .ok place ↔ p.hasNull = false ∧ t.locate p = .ok place := by
  unfold locateToOpen inaccessible
  split
  case isTrue h => simp [h]
  case isFalse h => cases hlocate : t.locate p <;> simp [h]

/-- A fault of looking at a path or opening it names the path, unless it cannot be a path at all. -/
def Misses (p : Path) (f : Fault) : Prop :=
  f = .nullInPath ∨ ∃ problem, f = .inaccessible problem p.toString

theorem misses_of_locateToOpen {f : Fault} (h : t.locateToOpen p = .error f) : Misses p f := by
  unfold locateToOpen at h
  split at h
  · exact .inl (Except.error.inj h).symm
  · split at h
    · cases h
    · exact .inr ⟨_, (Except.error.inj h).symm⟩

theorem isGrounded_of_locateToOpen (h : t.locateToOpen p = .ok place) : t.IsGrounded place :=
  isGrounded_of_walk (isGrounded_anchor t p.anchor)
    (locate_eq_ok.mp (locateToOpen_eq_ok.mp h).2).2

/-! ## Looking -/

/-- Looking at a path that leads to a place shows what lies there. -/
theorem look_of_locate (hnull : p.hasNull = false) (hplace : t.locate p = .ok place) :
    t.look p = .ok (t.entry? place) := by
  simp [look, hnull, hplace]

theorem isDirectory_of_locate (e? : Option Entry) (hnull : p.hasNull = false)
    (hplace : t.locate p = .ok place) (h : t.entry? place = e?) :
    t.isDirectory p = .ok (e?.any Entry.isDirectory) := by
  rw [isDirectory, look_of_locate hnull hplace, h]
  rfl

/-- The path leads to a file with these bytes, whether or not it may be read. -/
def Holds (t : FileTree) (p : Path) (bytes : List UInt8) : Prop :=
  ∃ place, t.locateToOpen p = .ok place ∧ t.entry? place = some (.file bytes)

/-- **Reading a path gives the bytes of the file that it leads to**, if the file may be read. -/
theorem read_eq_ok : t.read p = .ok bytes ↔ ∃ place, t.locateToOpen p = .ok place ∧
    t.entry? place = some (.file bytes) ∧ t.allows .read place = true := by
  unfold read
  rw [Fault.bind_eq_ok]
  refine exists_congr fun place => and_congr_right fun _ => ?_
  cases t.entry? place with
  | none => simp [inaccessible]
  | some entry =>
    cases t.allows .read place with
    | false => simp [inaccessible]
    | true => cases entry <;> simp [inaccessible, pure, Except.pure]

/-! ## Writing -/

/-- A file that is put below directories makes no new ones. -/
theorem hasDirectory_withFile (h : t.IsGrounded place) (bytes : List UInt8) (d : Path) :
    (t.withFile place bytes).hasDirectory d = t.hasDirectory d := by
  have hany : ∀ fs : List (Path × List UInt8), (fs.any fun f => f.1 != d && isBelow d f.1) =
      (fs.map Prod.fst).any fun q => q != d && isBelow d q := by
    intro fs
    rw [List.any_map]
    rfl
  -- what lies above the new file is a directory already
  have hnew : (place != d && isBelow d place) = true → t.hasDirectory d = true := by
    intro hbelow
    obtain ⟨hne, hbelow⟩ := Bool.and_eq_true_iff.mp hbelow
    exact h d hbelow fun heq => absurd heq.symm (bne_iff_ne.mp hne)
  unfold hasDirectory at hnew ⊢
  simp only [withFile, hany, Keyed.any_map_put] at hnew ⊢
  rw [← Bool.or_assoc]
  cases hp : (place != d && isBelow d place) with
  | false => rw [Bool.or_false]
  | true => rw [hnew hp, Bool.true_or]

theorem entry?_withFile (h : t.IsGrounded place) (bytes : List UInt8) (q : Path) :
    FileTree.entry? (t.withFile place bytes) q =
      if place = q then some (.file bytes) else t.entry? q := by
  unfold entry?
  rw [hasDirectory_withFile h bytes q]
  simp only [withFile, Keyed.find?_put]
  by_cases hq : place = q
  · simp [hq]
  · simp [hq]

theorem entry?_ne_of_writeProblem? (h : t.writeProblem? place = none) :
    t.entry? place ≠ some .directory := by
  intro hentry
  simp [writeProblem?, hentry] at h

theorem write_eq_ok : t.write p bytes = .ok t' ↔ ∃ place, t.locateToOpen p = .ok place ∧
    t.writeProblem? place = none ∧ t' = t.withFile place bytes := by
  unfold write
  rw [Fault.bind_eq_ok]
  refine exists_congr fun place => and_congr_right fun _ => ?_
  cases t.writeProblem? place with
  | some problem => simp [inaccessible]
  | none => simp [pure, Except.pure, eq_comm]

/-- A file cannot be written if its path leads nowhere, or something stands against it there. -/
theorem write_eq_error {f : Fault} : t.write p bytes = .error f ↔
    t.locateToOpen p = .error f ∨ ∃ place problem, t.locateToOpen p = .ok place ∧
      t.writeProblem? place = some problem ∧ f = .inaccessible problem p.toString := by
  unfold write
  rw [Fault.bind_eq_error]
  refine or_congr_right (exists_congr fun place => ?_)
  cases t.writeProblem? place with
  | some problem => simp [inaccessible, eq_comm]
  | none => simp [pure, Except.pure]

/-- The trees `t` and `t'` differ at one place, where `t'` has a file of these bytes. -/
structure DiffersAt (t t' : FileTree) (place : Path) (bytes : List UInt8) : Prop where
  here : t'.entry? place = some (.file bytes)
  elsewhere : ∀ q, q ≠ place → t'.entry? q = t.entry? q
  directories : ∀ d, t'.hasDirectory d = t.hasDirectory d
  permissions : ∀ access q, t'.allows access q = t.allows access q

/-- **A write changes the file that its path leads to, and nothing else.** -/
theorem differsAt_of_write (h : t.write p bytes = .ok t') (hplace : t.locateToOpen p = .ok place) :
    t.DiffersAt t' place bytes := by
  obtain ⟨place', hplace', -, rfl⟩ := write_eq_ok.mp h
  obtain rfl : place' = place := Except.ok.inj (hplace'.symm.trans hplace)
  have hgrounded := isGrounded_of_locateToOpen hplace
  exact {
    here := by rw [entry?_withFile hgrounded, if_pos rfl]
    elsewhere := fun q hq => by rw [entry?_withFile hgrounded, if_neg (Ne.symm hq)]
    directories := hasDirectory_withFile hgrounded bytes
    permissions := fun _ _ => rfl }

/-- **What was written is held**, by the file that the path leads to. -/
theorem holds_write (h : t.write p bytes = .ok t') : t'.Holds p bytes := by
  obtain ⟨place, hplace, hproblem, -⟩ := write_eq_ok.mp h
  have hdiffers := differsAt_of_write h hplace
  obtain ⟨hnull, hlocate⟩ := locateToOpen_eq_ok.mp hplace
  obtain ⟨hsize, hwalk⟩ := locate_eq_ok.mp hlocate
  -- the way to the file does not go through the file
  have hwalk' := walk_congr hdiffers.elsewhere hdiffers.permissions
    (entry?_ne_of_writeProblem? hproblem) hwalk
  exact ⟨place, locateToOpen_eq_ok.mpr ⟨hnull, locate_eq_ok.mpr ⟨hsize, hwalk'⟩⟩, hdiffers.here⟩

end FileTree

end Typings
