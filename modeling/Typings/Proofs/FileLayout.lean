import Mathlib.Data.List.Forall2
import Typings.Proofs.Composition.Declarations
import Typings.Proofs.Composition.Text
import Typings.Proofs.MergeableRecords

/-!
# The layout of a file

A file is its header, one block for each record of the table, in table order, and the line for
the second name of the root. Every block has an empty line behind it. The emitter goes through the
records one by one and stops at the first fault. That a whole file is written is therefore the same
as that each block is, and the blocks are known from the records.

Records that can be written stay so when they are merged and when functions are left out, since
whatever a table says is said by one of its records: `MadeOf` says that the names, nodes and
descriptions of a merged record are among those of the records, and a condition that is one on each
of them carries over at once. So a file can be written of every table that is built from such
records.
-/

namespace Typings.Declaration

open Schema (Record)

/-- The lines that are collected are what becomes of the lines of each declaration, one behind
the other. -/
theorem collect_eq_ok {α : Type} {f : α → Outcome (List String)}
    (g : List String → List String) {as : List α} {ls : List String} :
    (collect (fun a => do return g (← f a)) as).result = .ok ls ↔
      ∃ lss, List.Forall₂ (fun a la => (f a).result = .ok la) as lss ∧ ls = lss.flatMap g := by
  induction as generalizing ls with
  -- by induction on the declarations: the lines of the first one stand in front of the rest
  | nil =>
    rw [collect, Outcome.pure_result_eq_ok]
    constructor
    · rintro rfl
      exact ⟨[], .nil, rfl⟩
    · rintro ⟨lss, hlss, rfl⟩
      rw [List.forall₂_nil_left_iff.mp hlss]
      rfl
  | cons a as ih =>
    simp only [collect, Outcome.bind_result_eq_ok, Outcome.pure_result_eq_ok]
    constructor
    · rintro ⟨_, ⟨la, hla, rfl⟩, rest, hrest, rfl⟩
      obtain ⟨lss, hlss, rfl⟩ := ih.mp hrest
      exact ⟨la :: lss, .cons hla hlss, rfl⟩
    · rintro ⟨lss, hlss, rfl⟩
      obtain ⟨la, rest, hla, hrest, rfl⟩ := List.forall₂_cons_left_iff.mp hlss
      exact ⟨g la, ⟨la, hla, rfl⟩, rest.flatMap g, ih.mpr ⟨rest, hrest, rfl⟩, rfl⟩

/-- The blocks of records over a table. -/
def Blocks (t : Table) (root : String) (rs : List Record) (blocks : List (List String)) : Prop :=
  List.Forall₂ (fun r block => (blockLines t root r).result = .ok block) rs blocks

/-- Every block is the block of a record. -/
theorem Blocks.exists_record {t : Table} {root : String} {rs : List Record}
    {blocks : List (List String)} (h : Blocks t root rs blocks) {block : List String}
    (hblock : block ∈ blocks) : ∃ r ∈ rs, (blockLines t root r).result = .ok block := by
  induction h with
  | nil => exact absurd hblock (by simp)
  | @cons r b rs blocks hb _ ih =>
    rcases List.mem_cons.mp hblock with rfl | hblock
    · exact ⟨r, List.mem_cons_self, hb⟩
    · obtain ⟨s, hs, hlines⟩ := ih hblock
      exact ⟨s, List.mem_cons_of_mem _ hs, hlines⟩

/-- Blocks with an empty line behind each of them. -/
def spaced (blocks : List (List String)) : List String := blocks.flatMap fun b => b ++ [""]

/-- **A file is its header, the blocks of all records, and the line for the second name.** -/
theorem fileText_eq_ok {t : Table} {root : String} {globalAlias : Option String}
    {text : String} :
    (fileText t root globalAlias).result = .ok text ↔
      ∃ blocks, Blocks t root t.records blocks ∧
        text = linesText (header ++ spaced blocks ++ aliasLines t root globalAlias) := by
  -- there is a header at least, so the last line has its newline too
  have hne : ∀ ls, header ++ ls ++ aliasLines t root globalAlias ≠ [] := by
    intro ls
    simp [header]
  simp only [fileText, fileLines, Outcome.bind_result_eq_ok, Outcome.pure_result_eq_ok]
  constructor
  · rintro ⟨_, ⟨bs, hbs, rfl⟩, rfl⟩
    obtain ⟨blocks, hblocks, rfl⟩ := (collect_eq_ok (· ++ [""])).mp hbs
    exact ⟨blocks, hblocks, intercalate_newline (hne _)⟩
  · rintro ⟨blocks, hblocks, rfl⟩
    exact ⟨_, ⟨_, (collect_eq_ok (· ++ [""])).mpr ⟨blocks, hblocks, rfl⟩, rfl⟩,
      intercalate_newline (hne _)⟩

/-- Where every block can be written, so can the file. -/
theorem exists_blocks {t : Table} {root : String} {rs : List Record}
    (h : ∀ r ∈ rs, ∃ block, (blockLines t root r).result = .ok block) :
    ∃ blocks, Blocks t root rs blocks := by
  induction rs with
  | nil => exact ⟨[], .nil⟩
  | cons r rs ih =>
    obtain ⟨⟨block, hblock⟩, hrs⟩ := List.forall_mem_cons.mp h
    obtain ⟨blocks, hblocks⟩ := ih hrs
    exact ⟨block :: blocks, .cons hblock hblocks⟩

end Typings.Declaration

namespace Typings

/-! ## Files that can be written -/

open Schema (Record)

variable {IsName : String → Prop}

/-- **What is made of records that can be written can be written.** -/
theorem Schema.Record.MadeOf.isWritable {rs : List Record} {r : Record} (h : r.MadeOf rs)
    (hrs : ∀ s ∈ rs, s.IsWritable IsName) : r.IsWritable IsName where
  name := by
    obtain ⟨s, hs, hname⟩ := h.name
    exact hname ▸ (hrs s hs).name
  described := by
    refine ⟨?_, fun n hn => ?_, fun c hc => ?_⟩
    · obtain ⟨s, hs, hdescription⟩ := h.description
      exact hdescription ▸ (hrs s hs).described.record
    · obtain ⟨s, hs, hmem⟩ := h.nodes hn
      exact (hrs s hs).described.nodes n hmem
    · obtain ⟨s, hs, hmem⟩ := h.callables hc
      exact (hrs s hs).described.callables c hmem
  mentions := by
    intro n hn
    obtain ⟨s, hs, hmem⟩ := h.nodes hn
    exact (hrs s hs).mentions n hmem
  types := by
    intro n hn
    obtain ⟨s, hs, hmem⟩ := h.types n hn
    exact (hrs s hs).types n hmem
  callables := by
    intro c hc
    obtain ⟨s, hs, hmem⟩ := h.callables hc
    exact (hrs s hs).callables c hmem
  properties := by
    intro p hp
    obtain ⟨s, hs, hmem⟩ := h.properties p hp
    exact (hrs s hs).properties p hmem

theorem Table.isWritable_of_build {rs : List Record} {ignored : Ignored} {t : Table}
    (h : build rs ignored = .ok t) (hrs : ∀ r ∈ rs, r.IsWritable IsName) :
    ∀ r ∈ t.records, r.IsWritable IsName := fun _ hr =>
  (madeOf_of_build h hr).1.isWritable fun s hs => hrs s (mem_group.mp hs).1

namespace Declaration

/-- **All blocks of a table can be written, and are put together.** -/
theorem exists_composed_blocks {t : Table} (ht : ∀ r ∈ t.records, r.IsWritable IsName)
    (root : String) (hroot : IsName root) :
    ∃ blocks, Blocks t root t.records blocks ∧
      ∀ block ∈ blocks, Composed IsName (linesText block) := by
  have hnames : ∀ name ∈ t.names, IsName name := by
    intro name hname
    obtain ⟨r, hr, rfl⟩ := List.mem_map.mp hname
    exact (ht r hr).name
  obtain ⟨blocks, hblocks⟩ := exists_blocks fun r hr =>
    (blockLines_composed hnames hroot (ht r hr)).imp fun _ h => h.1
  refine ⟨blocks, hblocks, fun block hblock => ?_⟩
  obtain ⟨r, hr, hlines⟩ := hblocks.exists_record hblock
  -- a record has one block, so it is the one that is put together
  obtain ⟨ls, hls, hcomposed⟩ := blockLines_composed hnames hroot (ht r hr)
  obtain rfl : ls = block := Except.ok.inj (hls.symm.trans hlines)
  exact hcomposed

end Declaration

end Typings
