import Mathlib.Data.List.Forall2
import Mathlib.Data.String.Basic
import Typings.Files.SchemaFile
import Typings.Proofs.Files.Writing
import Typings.Proofs.Utf8

/-!
# In which order files are read

**Finding.** The schema files of a directory are found by name in ascending order, however the
directory happens to list its entries. Names that are sorted and do not repeat are determined by
which names they are, so the answer can be told without a word about sorting (`Lists`). Looking for
files can fail: the directory cannot be listed, or an entry in it cannot be looked at.

**Reading.** Files are read one after the other until one of them fails. The fault is that of the
first such file, and what lies behind it does not matter (`readAll_eq_error`). A file fails if its
bytes cannot be had, if they make no records, or if the user cannot be told of a record.
-/

namespace Typings

open Schema (Record)

variable {h : Host} {t : FileTree} {d p : Path} {paths : List Path} {f : Fault}

/-! ## The files of a directory -/

/-- Bytes that cannot be had are missed at the path that was asked for. -/
theorem FileTree.misses_of_read (hread : t.read p = .error f) : Misses p f := by
  unfold read at hread
  rcases Fault.bind_eq_error.mp hread with hplace | ⟨place, -, hentry⟩
  · exact misses_of_locateToOpen hplace
  · -- what is found at the place leaves three problems, each with this path
    split at hentry
    · exact .inr ⟨_, (Except.error.inj hentry).symm⟩
    · split at hentry
      · exact .inr ⟨_, (Except.error.inj hentry).symm⟩
      · split at hentry
        · cases hentry
        · exact .inr ⟨_, (Except.error.inj hentry).symm⟩

namespace SchemaFile

/-- `paths` are the schema files directly inside a directory, by name in ascending order. Where
there is no directory there are none. -/
inductive Lists (t : FileTree) (d : Path) : List Path → Prop
  | missing (absent : t.isDirectory d = .ok false) : Lists t d []
  | present {entries names : List String} (there : t.isDirectory d = .ok true)
      (listed : t.list d = .ok entries)
      (looked : ∀ name ∈ entries, ∃ file, t.isFile (d.child name) = .ok file)
      (sorted : names.Pairwise (· < ·))
      (complete : ∀ name, name ∈ names ↔
        name ∈ entries ∧ t.isFile (d.child name) = .ok true ∧ isSchemaName name = true) :
      Lists t d (names.map d.child)

/-- Files are kept if every name can be looked at. -/
theorem exists_keepFiles_iff {names : List String} : (∃ files, keepFiles t d names = .ok files) ↔
    ∀ name ∈ names, ∃ file, t.isFile (d.child name) = .ok file := by
  induction names with
  | nil => simp [keepFiles, pure, Except.pure]
  | cons name names ih =>
    rw [List.forall_mem_cons, ← ih]
    simp only [keepFiles, Fault.bind_eq_ok]
    constructor
    · rintro ⟨_, file, hfile, rest, hrest, -⟩
      exact ⟨⟨file, hfile⟩, rest, hrest⟩
    · rintro ⟨⟨file, hfile⟩, rest, hrest⟩
      exact ⟨_, file, hfile, rest, hrest, rfl⟩

/-- **The names that are kept are those of files**, in their order. -/
theorem of_keepFiles {names files : List String} (hkeep : keepFiles t d names = .ok files) :
    files.Sublist names ∧
      ∀ name, name ∈ files ↔ name ∈ names ∧ t.isFile (d.child name) = .ok true := by
  induction names generalizing files with
  | nil =>
    obtain rfl := Except.ok.inj hkeep
    exact ⟨.slnil, fun name => by simp⟩
  | cons head names ih =>
    simp only [keepFiles, Fault.bind_eq_ok] at hkeep
    obtain ⟨file, hfile, rest, hrest, hfiles⟩ := hkeep
    obtain rfl := Except.ok.inj hfiles
    obtain ⟨hsub, hmem⟩ := ih hrest
    -- the first name is kept or not, and what is said of the others does not change
    cases file with
    | true =>
      refine ⟨hsub.cons_cons head, fun name => ?_⟩
      by_cases heq : name = head
      · simp [heq, hfile]
      · simp [heq, hmem]
    | false =>
      refine ⟨hsub.cons head, fun name => ?_⟩
      by_cases heq : name = head
      · simp [heq, hfile, hmem]
      · simp [heq, hmem]

/-- Names in ascending order are determined by which names they are. -/
theorem eq_of_mem_iff_of_sorted {as bs : List String} (ha : as.Pairwise (· < ·))
    (hb : bs.Pairwise (· < ·)) (hmem : ∀ name, name ∈ as ↔ name ∈ bs) : as = bs := by
  have hperm : as.Perm bs :=
    (List.perm_ext_iff_of_nodup (ha.imp ne_of_lt) (hb.imp ne_of_lt)).mpr hmem
  exact hperm.eq_of_pairwise (fun _ _ _ _ hlt hgt => absurd hgt (lt_asymm hlt)) ha hb

theorem sorted_mergeSort {names : List String} (hnodup : names.Nodup) :
    (names.mergeSort fun a b => a ≤ b).Pairwise (· < ·) := by
  have hle : (names.mergeSort fun a b => a ≤ b).Pairwise fun a b => decide (a ≤ b) = true :=
    List.pairwise_mergeSort (fun a b c => by simpa using le_trans)
      (fun a b => by simpa using le_total a b) names
  have hne : (names.mergeSort fun a b => a ≤ b).Pairwise (· ≠ ·) :=
    (List.mergeSort_perm _ _).nodup_iff.mpr hnodup
  exact (hle.and hne).imp fun ⟨hle, hne⟩ => lt_of_le_of_ne (of_decide_eq_true hle) hne

/-- A directory lists no name twice. -/
theorem nodup_of_list {entries : List String} (hlist : t.list d = .ok entries) :
    entries.Nodup := by
  unfold FileTree.list at hlist
  obtain ⟨place, -, hentry⟩ := Fault.bind_eq_ok.mp hlist
  split at hentry
  · split at hentry
    · obtain rfl := Except.ok.inj hentry
      rw [FileTree.names, ← List.filterMap_some (l := Keyed.distinct some _)]
      exact Keyed.nodup_keys_distinct some _
    · cases hentry
  · cases hentry
  · cases hentry

/-- **Looking for schema files finds them in ascending order.** -/
theorem find_eq_ok :
    (find h t d).result = .ok paths ↔ h.out (searching d) = .ok () ∧ Lists t d paths := by
  unfold find
  simp only [Outcome.bind_result_eq_ok, Outcome.lift_result, Host.say_eq_ok, exists_const]
  refine and_congr_right fun _ => ?_
  constructor
  · rintro ⟨there, hdir, hfind⟩
    cases there with
    | false =>
      obtain ⟨_, -, hnone⟩ := Outcome.bind_result_eq_ok.mp hfind
      obtain rfl := Outcome.pure_result_eq_ok.mp hnone
      exact .missing hdir
    | true =>
      obtain ⟨entries, hlist, hfind⟩ := Outcome.bind_result_eq_ok.mp hfind
      obtain ⟨files, hkeep, hfind⟩ := Outcome.bind_result_eq_ok.mp hfind
      obtain rfl := Outcome.pure_result_eq_ok.mp hfind
      obtain ⟨hsub, hmem⟩ := of_keepFiles hkeep
      have hnodup := (hsub.nodup (nodup_of_list hlist)).filter isSchemaName
      refine .present hdir hlist (exists_keepFiles_iff.mp ⟨files, hkeep⟩) (sorted_mergeSort hnodup)
        fun name => ?_
      rw [List.mem_mergeSort, List.mem_filter, hmem, and_assoc]
  · intro hlists
    cases hlists with
    | missing hdir => exact ⟨false, hdir, Outcome.bind_result_eq_ok.mpr ⟨(), rfl, rfl⟩⟩
    | @present entries names hdir hlist hlooked hsorted hcomplete =>
      obtain ⟨files, hkeep⟩ := exists_keepFiles_iff.mpr hlooked
      obtain ⟨hsub, hmem⟩ := of_keepFiles hkeep
      have hnodup := (hsub.nodup (nodup_of_list hlist)).filter isSchemaName
      -- what is found is sorted too, and has the same members
      have hnames : (files.filter isSchemaName).mergeSort (fun a b => a ≤ b) = names :=
        eq_of_mem_iff_of_sorted (sorted_mergeSort hnodup) hsorted fun name => by
          rw [List.mem_mergeSort, List.mem_filter, hmem, hcomplete, and_assoc]
      refine ⟨true, hdir, Outcome.bind_result_eq_ok.mpr ⟨entries, hlist,
        Outcome.bind_result_eq_ok.mpr ⟨files, hkeep, Outcome.pure_result_eq_ok.mpr ?_⟩⟩⟩
      rw [hnames]

/-! ## Reading -/

/-- The first of some things that is of one kind, where all before it are of another, is the
head, or it is the first in the tail behind a head of the other kind. -/
theorem exists_first_cons {α : Type} {P Q : α → Prop} {a : α} {as : List α} :
    (∃ before b after, a :: as = before ++ b :: after ∧ (∀ x ∈ before, P x) ∧ Q b) ↔
      Q a ∨ P a ∧ ∃ before b after, as = before ++ b :: after ∧ (∀ x ∈ before, P x) ∧ Q b := by
  constructor
  · rintro ⟨before, b, after, heq, hbefore, hb⟩
    cases before with
    | nil =>
      obtain ⟨rfl, -⟩ := List.cons.inj heq
      exact .inl hb
    | cons c before =>
      obtain ⟨rfl, hrest⟩ := List.cons.inj heq
      obtain ⟨ha, hbefore⟩ := List.forall_mem_cons.mp hbefore
      exact .inr ⟨ha, before, b, after, hrest, hbefore, hb⟩
  · rintro (ha | ⟨ha, before, b, after, rfl, hbefore, hb⟩)
    · exact ⟨[], a, as, rfl, fun _ hnil => absurd hnil List.not_mem_nil, ha⟩
    · exact ⟨a :: before, b, after, rfl, List.forall_mem_cons.mpr ⟨ha, hbefore⟩, hb⟩

/-- A text that was encoded is parsed as it is. -/
theorem parse_encode {s : List Char} {v : Json}
    (h : Json.read (Json.stripComments (normalizeNewlines s)) = .ok v) :
    parse (Text.Utf8.encode s) = Record.listOfJson v := by
  simp only [parse, Text.Utf8.decode_encode, h]

/-- The user can be told of every record. -/
def Told (h : Host) (rs : List Record) : Prop := ∀ r ∈ rs, h.out (processing r) = .ok ()

/-- `problem` keeps the user from being told of some record, and not of any before it. -/
def Untold (h : Host) (rs : List Record) (problem : ConsoleProblem) : Prop :=
  ∃ before r after, rs = before ++ r :: after ∧ Told h before ∧
    h.out (processing r) = .error problem

theorem tell_eq_ok {rs : List Record} {u : Unit} : tell h rs = .ok u ↔ Told h rs := by
  induction rs with
  | nil => simp [tell, Told, pure, Except.pure]
  | cons r rs ih =>
    simp only [tell, Fault.bind_eq_ok, Host.say_eq_ok, exists_const, ih, Told,
      List.forall_mem_cons]

theorem untold_cons {r : Record} {rs : List Record} {problem : ConsoleProblem} :
    Untold h (r :: rs) problem ↔ h.out (processing r) = .error problem ∨
      h.out (processing r) = .ok () ∧ Untold h rs problem :=
  exists_first_cons

theorem tell_eq_error {rs : List Record} :
    tell h rs = .error f ↔ ∃ problem, Untold h rs problem ∧ f = .unprintable problem := by
  induction rs with
  | nil => simp [tell, Untold, pure, Except.pure]
  | cons r rs ih =>
    simp only [tell, Fault.bind_eq_error, Host.say_eq_error, Host.say_eq_ok, exists_const, ih,
      untold_cons]
    constructor
    · rintro (⟨problem, hproblem, rfl⟩ | ⟨hr, problem, huntold, rfl⟩)
      · exact ⟨problem, .inl hproblem, rfl⟩
      · exact ⟨problem, .inr ⟨hr, huntold⟩, rfl⟩
    · rintro ⟨problem, hproblem | ⟨hr, huntold⟩, rfl⟩
      · exact .inl ⟨problem, hproblem, rfl⟩
      · exact .inr ⟨hr, problem, huntold, rfl⟩

/-- **A file is read if its bytes make records and the user can be told of them.** -/
theorem read_eq_ok {rs : List Record} : read h t p = .ok rs ↔
    ∃ bytes, t.read p = .ok bytes ∧ parse bytes = .ok rs ∧ Told h rs := by
  simp only [read, Fault.bind_eq_ok, tell_eq_ok]
  refine exists_congr fun bytes => and_congr_right fun _ => ?_
  cases parse bytes with
  -- a fault of the document is told with the file, and is a fault still
  | error g => simp [Except.mapError]
  | ok qs =>
    simp only [Except.mapError, Except.ok.injEq, exists_eq_left', exists_const, pure, Except.pure]
    constructor
    · rintro ⟨htold, rfl⟩
      exact ⟨rfl, htold⟩
    · rintro ⟨rfl, htold⟩
      exact ⟨htold, rfl⟩

/-- **Reading a file fails** where its bytes cannot be had, where they make no records, or where
the user cannot be told of one. -/
theorem read_eq_error : read h t p = .error f ↔ t.read p = .error f ∨
    (∃ bytes g, t.read p = .ok bytes ∧ parse bytes = .error g ∧ f = g.inFile p.toString) ∨
    ∃ bytes rs problem, t.read p = .ok bytes ∧ parse bytes = .ok rs ∧ Untold h rs problem ∧
      f = .unprintable problem := by
  unfold read
  cases t.read p with
  | error g => simp [bind, Except.bind]
  | ok bytes =>
    cases hparse : parse bytes with
    | error g => simp [bind, Except.bind, Except.mapError, hparse, eq_comm]
    | ok rs =>
      -- with its records there, only telling of them can fail
      have htell : (do tell h rs; return rs) = Except.error f ↔ tell h rs = .error f := by
        cases tell h rs <;> simp [bind, Except.bind, pure, Except.pure]
      simpa [bind, Except.bind, Except.mapError, hparse, tell_eq_error] using htell

/-- **A file that is refused is named.** -/
theorem file_of_read_refused {file : Option String} {problem : Schema.Problem}
    (hread : read h t p = .error (.refused file problem)) : file = some p.toString := by
  rcases read_eq_error.mp hread with hbytes | ⟨bytes, g, -, -, hg⟩ | ⟨_, _, _, -, -, -, hf⟩
  · rcases FileTree.misses_of_read hbytes with hf | ⟨_, hf⟩ <;> cases hf
  · cases g <;> cases hg
    rfl
  · cases hf

/-- `f` is the fault of the first file that cannot be read: all before it can. -/
def FirstFault (h : Host) (t : FileTree) (paths : List Path) (f : Fault) : Prop :=
  ∃ before p after, paths = before ++ p :: after ∧ (∀ q ∈ before, ∃ rs, read h t q = .ok rs) ∧
    read h t p = .error f

theorem firstFault_cons : FirstFault h t (p :: paths) f ↔
    read h t p = .error f ∨ (∃ rs, read h t p = .ok rs) ∧ FirstFault h t paths f :=
  exists_first_cons

/-- **Reading several files fails with the first of them that fails.** -/
theorem readAll_eq_error : readAll h t paths = .error f ↔ FirstFault h t paths f := by
  induction paths with
  | nil =>
    constructor
    · intro hnil
      cases hnil
    · rintro ⟨before, p, after, heq, -⟩
      exact absurd heq (by simp)
  | cons p paths ih =>
    -- either the first file fails, or it is read and the others go on
    rw [firstFault_cons, ← ih, readAll]
    cases read h t p with
    | error g => simp [bind, Except.bind]
    | ok rs => cases readAll h t paths <;> simp [bind, Except.bind, pure, Except.pure]

/-- Reading several files gives the records of all of them, file by file. -/
theorem readAll_eq_ok {rs : List Record} : readAll h t paths = .ok rs ↔
    ∃ rss, List.Forall₂ (fun p r => read h t p = .ok r) paths rss ∧ rs = rss.flatten := by
  induction paths generalizing rs with
  | nil =>
    constructor
    · intro hnil
      exact ⟨[], .nil, (Except.ok.inj hnil).symm⟩
    · rintro ⟨rss, hrss, rfl⟩
      rw [List.forall₂_nil_left_iff.mp hrss]
      rfl
  | cons p paths ih =>
    simp only [readAll, Fault.bind_eq_ok]
    constructor
    · rintro ⟨r, hr, rest, hrest, hrs⟩
      obtain ⟨rss, hrss, rfl⟩ := ih.mp hrest
      exact ⟨r :: rss, .cons hr hrss, (Except.ok.inj hrs).symm⟩
    · rintro ⟨rss, hrss, rfl⟩
      obtain ⟨r, rest, hr, hrest, rfl⟩ := List.forall₂_cons_left_iff.mp hrss
      exact ⟨r, hr, rest.flatten, ih.mpr ⟨rest, hrest, rfl⟩, rfl⟩

end SchemaFile

end Typings
