import Typings.Generator
import Typings.Proofs.Files.Reading

/-!
# The order of enumeration

A directory lists its entries in no particular order. What lies at a place is looked up by the
place, so walking, looking and reading come out the same whatever the order is. Only listing a
directory shows the order, and the files of a directory are sorted before they are read. So the
draft of a run does not depend on the order either.

This is about runs that go well. If several entries of a directory cannot be looked at, it is the
first of them that the fault names, and which one is first is up to the directory.
-/

namespace Typings

open Schema (Record)

namespace FileTree

variable {h : Host} {t t' : FileTree} {d : Path}

/-- The trees hold the same files and directories, in whatever order. -/
structure Reorders (t t' : FileTree) : Prop where
  places : (t.files.map Prod.fst).Nodup
  files : t'.files.Perm t.files
  directories : t'.directories.Perm t.directories
  forbidden : t'.forbidden.Perm t.forbidden

namespace Reorders

/-! ## Places -/

theorem hasDirectory_eq (hr : t.Reorders t') (d : Path) :
    t'.hasDirectory d = t.hasDirectory d := by
  unfold hasDirectory
  rw [hr.files.any_eq, hr.directories.any_eq]

theorem entry?_eq (hr : t.Reorders t') (p : Path) : t'.entry? p = t.entry? p := by
  unfold entry?
  rw [Keyed.find?_perm hr.files.symm hr.places p, hr.hasDirectory_eq]

theorem allows_eq (hr : t.Reorders t') (access : Access) (p : Path) :
    t'.allows access p = t.allows access p := by
  have hmem : (p, access) ∈ t'.forbidden ↔ (p, access) ∈ t.forbidden := hr.forbidden.mem_iff
  simp only [allows, List.contains_eq_mem, hmem]

/-- **Walks lead to the same places.** -/
theorem walk_eq (hr : t.Reorders t') (place : Path) (parts : List String) :
    t'.walk place parts = t.walk place parts := by
  induction parts generalizing place with
  | nil => rfl
  | cons part parts ih => simp only [walk, hr.entry?_eq, hr.allows_eq, ih]

theorem locate_eq (hr : t.Reorders t') (p : Path) : t'.locate p = t.locate p := by
  unfold locate
  rw [hr.walk_eq]

theorem look_eq (hr : t.Reorders t') (p : Path) : t'.look p = t.look p := by
  unfold look
  rw [hr.locate_eq]
  simp only [hr.entry?_eq]

theorem isDirectory_eq (hr : t.Reorders t') (p : Path) : t'.isDirectory p = t.isDirectory p := by
  unfold isDirectory
  rw [hr.look_eq]

theorem isFile_eq (hr : t.Reorders t') (p : Path) : t'.isFile p = t.isFile p := by
  unfold isFile
  rw [hr.look_eq]

theorem locateToOpen_eq (hr : t.Reorders t') (p : Path) :
    t'.locateToOpen p = t.locateToOpen p := by
  unfold locateToOpen
  rw [hr.locate_eq]

theorem read_eq (hr : t.Reorders t') (p : Path) : t'.read p = t.read p := by
  simp only [read, hr.locateToOpen_eq, hr.entry?_eq, hr.allows_eq]

/-- The names in a directory are the same, in whatever order. -/
theorem mem_names_iff (hr : t.Reorders t') (place : Path) (name : String) :
    name ∈ t'.names place ↔ name ∈ t.names place := by
  have hplaces := (hr.files.map Prod.fst).append hr.directories
  have hmem := (hplaces.filterMap (nameTowards? place)).mem_iff (a := name)
  have hdistinct : ∀ ns : List String, name ∈ Keyed.distinct some ns ↔ name ∈ ns := by
    intro ns
    have hkeys : name ∈ (Keyed.distinct some ns).filterMap some ↔ name ∈ ns.filterMap some :=
      Keyed.mem_keys_distinct
    simpa using hkeys
  rw [names, names, hdistinct, hdistinct, hmem]

theorem exists_list (hr : t.Reorders t') {entries : List String} (hlist : t'.list d = .ok entries) :
    ∃ entries', t.list d = .ok entries' ∧ ∀ name, name ∈ entries' ↔ name ∈ entries := by
  unfold list at hlist ⊢
  -- the directory is found and opened alike; only the order of its names differs
  rw [hr.locateToOpen_eq] at hlist
  obtain ⟨place, hplace, hentry⟩ := Fault.bind_eq_ok.mp hlist
  simp only [hplace, bind, Except.bind, ← hr.entry?_eq, ← hr.allows_eq]
  split at hentry
  · split at hentry
    · obtain rfl := Except.ok.inj hentry
      exact ⟨_, by simp_all [pure, Except.pure], fun name => (hr.mem_names_iff place name).symm⟩
    · cases hentry
  · cases hentry
  · cases hentry

theorem symm (hr : t.Reorders t') : t'.Reorders t where
  places := (hr.files.map Prod.fst).nodup_iff.mpr hr.places
  files := hr.files.symm
  directories := hr.directories.symm
  forbidden := hr.forbidden.symm

/-! ## Drafts -/

theorem lists_of_lists (hr : t.Reorders t') {paths : List Path}
    (hlists : SchemaFile.Lists t' d paths) : SchemaFile.Lists t d paths := by
  cases hlists with
  | missing hdir => exact .missing ((hr.isDirectory_eq d).symm.trans hdir)
  | present hdir hlist hlooked hsorted hcomplete =>
    obtain ⟨entries, hlist', hmem⟩ := hr.exists_list hlist
    refine .present ((hr.isDirectory_eq d).symm.trans hdir) hlist' (fun name hname => ?_) hsorted
      fun name => ?_
    · rw [← hr.isFile_eq]
      exact hlooked name ((hmem name).mp hname)
    · rw [hcomplete, hmem, hr.isFile_eq]

/-- **The schema files of a directory are found in the same order.** -/
theorem lists_iff (hr : t.Reorders t') {paths : List Path} :
    SchemaFile.Lists t' d paths ↔ SchemaFile.Lists t d paths :=
  ⟨hr.lists_of_lists, hr.symm.lists_of_lists⟩

theorem readFile_eq (hr : t.Reorders t') (p : Path) :
    SchemaFile.read h t' p = SchemaFile.read h t p := by
  unfold SchemaFile.read
  rw [hr.read_eq]

theorem readAll_eq (hr : t.Reorders t') (paths : List Path) :
    SchemaFile.readAll h t' paths = SchemaFile.readAll h t paths := by
  induction paths with
  | nil => rfl
  | cons p paths ih => rw [SchemaFile.readAll, SchemaFile.readAll, hr.readFile_eq, ih]

/-- **A run that makes a draft makes the same draft.** -/
theorem draft_eq_ok_iff (hr : t.Reorders t') (c : Config) {draft : Generator.Draft} :
    (Generator.draft h t' c).result = .ok draft ↔ (Generator.draft h t c).result = .ok draft := by
  simp only [Generator.draft, Generator.sources, Outcome.bind_result_eq_ok,
    Outcome.lift_result, Outcome.pure_result_eq_ok, SchemaFile.find_eq_ok, hr.lists_iff,
    hr.readAll_eq]

end Reorders

end FileTree

end Typings
