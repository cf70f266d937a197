import Typings.Proofs.FileLayout
import Typings.Proofs.Files.Enumeration
import Typings.Proofs.MergeContents
import Typings.Proofs.MergeableRecords
import Typings.Proofs.Runs
import Typings.Proofs.Scanning.Values
import Typings.Proofs.ScopeDependence

/-!
# What a run writes

**When it writes.** A run succeeds exactly if every file that it finds can be read, their records
can be merged, every namespace can be declared, the output path leads to where a file may be
written, and every message on the way can be shown.

**What it writes** is then determined by what the two directories hold (`LaidOut`): the header, one
block for each namespace that some record describes and that is not ignored, in the order in which
they are first met, and the line for the second name of the root. A block is a comment and then
declarations between the braces of its namespace.

The order in which a directory lists its files does not come into it. `laidOut_of_blocks` puts the
layout together from what the stages of a run give, and `draft_eq_ok_iff_laidOut` says that there
is no other way to a draft.
-/

namespace Typings

open Schema (Record)

/-! ## The namespaces of a file -/

namespace Config

/-- A name is ignored if it stands between two commas, blanks around it apart. -/
def Ignores (c : Config) (name : String) : Prop :=
  name ≠ "" ∧ ∃ piece ∈ Text.cut ',' c.ignoredNamespaces.toList, name.toList = Text.trim piece

theorem mem_ignoreList {c : Config} {name : String} : name ∈ c.ignoreList ↔ c.Ignores name := by
  simp only [ignoreList, Ignores, List.mem_map, List.mem_filter, decide_eq_true_eq]
  constructor
  · rintro ⟨_, ⟨⟨piece, hpiece, rfl⟩, hne⟩, rfl⟩
    refine ⟨fun h => hne ?_, piece, hpiece, String.toList_ofList⟩
    rw [← String.toList_ofList (l := Text.trim piece), h, String.toList_empty]
  · rintro ⟨hne, piece, hpiece, heq⟩
    refine ⟨_, ⟨⟨piece, hpiece, rfl⟩, fun h => hne ?_⟩, ?_⟩
    · rw [← String.ofList_toList (s := name), heq, h]
    · rw [← heq, String.ofList_toList]

end Config

namespace Table

/-- **A table that is built has the namespaces of its records that are not ignored**, in the
order in which they first come. -/
theorem names_of_build {rs : List Record} {ignored : Ignored} {t : Table}
    (h : build rs ignored = .ok t) : t.names =
      (Keyed.firsts some (rs.map Record.name)).filter fun name => !ignored.covers name := by
  obtain ⟨u, hu, rfl⟩ := build_eq_ok.mp h
  rw [← Keyed.distinct_eq_firsts, ← (represents_of_ofRecords hu).names]
  simp only [names, dropIgnored, removeFunctions, map, List.filter_map, List.map_map]
  rfl

end Table

namespace Declaration

variable {t : Table} {root : String}

/-! ## Blocks -/

/-- The blocks of a table are those of its namespaces. -/
theorem blocks_records_iff {blocks : List (List String)} : Blocks t root t.records blocks ↔
    List.Forall₂ (fun name block => (namespaceLines t root name).result = .ok block) t.names
      blocks := by
  -- a record is found again by the name of its namespace
  have hlines : ∀ r ∈ t.records, namespaceLines t root r.name = blockLines t root r :=
    fun r hr => namespaceLines_of_some (Table.get?_of_mem hr) root
  unfold Blocks Table.names
  rw [List.forall₂_map_left_iff]
  generalize t.records = rs at hlines
  induction rs generalizing blocks with
  | nil => rw [List.forall₂_nil_left_iff, List.forall₂_nil_left_iff]
  | cons r rs ih =>
    obtain ⟨hr, hrs⟩ := List.forall_mem_cons.mp hlines
    simp only [List.forall₂_cons_left_iff, hr, ih hrs]

/-- **A block is a comment, and declarations between the braces of its namespace.** -/
theorem frame_of_namespaceLines {name : String} {block : List String}
    (h : (namespaceLines t root name).result = .ok block) :
    ∃ r doc body, t.get? name = some r ∧ DocComment.render [r.description] "" = .ok doc ∧
      block = doc ++ ["declare namespace " ++ root ++ "." ++ name ++ " \x7b"] ++ body ++
        ["\x7d"] := by
  cases hget : t.get? name with
  | none =>
    rw [namespaceLines_of_none hget] at h
    cases h
  | some r =>
    rw [namespaceLines_of_some hget] at h
    simp only [blockLines, Outcome.bind_result_eq_ok, Outcome.lift_result,
      Outcome.pure_result_eq_ok] at h
    -- all parts between the comment and the last brace are the body
    obtain ⟨doc, hdoc, types, -, functions, -, events, -, properties, -, rfl⟩ := h
    refine ⟨r, doc, types ++ functions ++ events ++ properties, rfl, hdoc, ?_⟩
    rw [Table.name_of_get? hget]
    simp only [List.append_assoc]

/-- The second name is declared if it is set and there is a namespace. -/
theorem aliasLines_eq (t : Table) (root : String) (globalAlias : Option String) :
    aliasLines t root globalAlias = if t.names = [] then [] else
      globalAlias.toList.map fun name =>
        "declare const " ++ name ++ ": typeof " ++ root ++ ";" := by
  cases globalAlias with
  | none => simp [aliasLines]
  | some name => simp [aliasLines, Table.names]

end Declaration

namespace Generator

open Declaration (header namespaceLines spaced)

/-- The text `s` is the declaration file of what the files at `paths` hold: `rss` are the records
of each file, `t` is the table that they make, and `blocks` are the blocks of its namespaces. -/
structure LaidOut (h : Host) (tree : FileTree) (c : Config) (paths : List Path)
    (rss : List (List Record)) (t : Table) (blocks : List (List String)) (s : String) : Prop where
  read : List.Forall₂ (fun p rs => SchemaFile.read h tree p = .ok rs) paths rss
  built : Table.build rss.flatten (.listed c.ignoreList) = .ok t
  /-- Every namespace of every record that is not ignored has a block, and no other. -/
  described : ∀ name, name ∈ t.names ↔
    (∃ rs ∈ rss, ∃ r ∈ rs, r.name = name) ∧ ¬ c.Ignores name
  once : t.names.Nodup
  /-- The order is that of the first records. -/
  order : t.names = (Keyed.firsts some (rss.flatten.map Record.name)).filter fun name =>
    name ∉ c.ignoreList
  emitted : List.Forall₂ (fun name block =>
    (namespaceLines t c.rootNamespace name).result = .ok block) t.names blocks
  framed : List.Forall₂ (fun name block => ∃ r doc body, t.get? name = some r ∧
    DocComment.render [r.description] "" = .ok doc ∧ block = doc ++
      ["declare namespace " ++ c.rootNamespace ++ "." ++ name ++ " \x7b"] ++ body ++ ["\x7d"])
    t.names blocks
  text : s = linesText (header ++ spaced blocks ++ if blocks = [] then [] else
    c.globalAlias.toList.map fun name =>
      "declare const " ++ name ++ ": typeof " ++ c.rootNamespace ++ ";")

/-- Which namespaces a table has that is built from the records of some files. -/
theorem mem_names_of_build {c : Config} {rss : List (List Record)} {t : Table}
    (h : Table.build rss.flatten (.listed c.ignoreList) = .ok t) (name : String) :
    name ∈ t.names ↔ (∃ rs ∈ rss, ∃ r ∈ rs, r.name = name) ∧ ¬ c.Ignores name := by
  have hfirsts : name ∈ (Keyed.firsts some (rss.flatten.map Record.name)).filterMap some ↔
      name ∈ (rss.flatten.map Record.name).filterMap some := by
    rw [← Keyed.distinct_eq_firsts]
    exact Keyed.mem_keys_distinct
  rw [List.filterMap_some, List.filterMap_some] at hfirsts
  rw [Table.names_of_build h, List.mem_filter, hfirsts, ← Config.mem_ignoreList]
  simp [Table.Ignored.covers]

/-- A file is laid out as soon as its files are read, its table is built and its blocks are
emitted: the rest follows. -/
theorem laidOut_of_blocks {h : Host} {tree : FileTree} {c : Config} {paths : List Path}
    {rss : List (List Record)} {t : Table} {blocks : List (List String)}
    (hread : List.Forall₂ (fun p rs => SchemaFile.read h tree p = .ok rs) paths rss)
    (hbuilt : Table.build rss.flatten (.listed c.ignoreList) = .ok t)
    (hblocks : Declaration.Blocks t c.rootNamespace t.records blocks) :
    LaidOut h tree c paths rss t blocks (linesText (header ++ spaced blocks ++
      Declaration.aliasLines t c.rootNamespace c.globalAlias)) := by
  have hemitted := Declaration.blocks_records_iff.mp hblocks
  -- there are as many blocks as namespaces
  have hnil : t.names = [] ↔ blocks = [] := by
    rw [← List.length_eq_zero_iff, hemitted.length_eq, List.length_eq_zero_iff]
  exact {
    read := hread
    built := hbuilt
    described := mem_names_of_build hbuilt
    once := t.nodup
    order := by simpa [Table.Ignored.covers] using Table.names_of_build hbuilt
    emitted := hemitted
    framed := hemitted.imp fun _ _ => Declaration.frame_of_namespaceLines
    text := by simp only [Declaration.aliasLines_eq, hnil] }

/-- What a run tells besides what it tells of records can be shown, if it declares `n`
namespaces. -/
structure Announced (h : Host) (c : Config) (n : Nat) : Prop where
  schemas : h.out (SchemaFile.searching c.schemaDirectory) = .ok ()
  browserSchemas : h.out (SchemaFile.searching c.browserDirectory) = .ok ()
  ignored : c.ignoreList ≠ [] → h.out (ignoring c) = .ok ()
  written : h.out (wrote n c.outputPath) = .ok ()

/-- **A draft** is laid out from what the two directories hold, and there is one whenever it can
be, and the user can be told so. -/
theorem draft_eq_ok_iff_laidOut {h : Host} {tree : FileTree} {c : Config} {n : Nat} {s : String} :
    ((draft h tree c).result = .ok ⟨n, s⟩ ∧ h.out (wrote n c.outputPath) = .ok ()) ↔
      ∃ first second rss t blocks, SchemaFile.Lists tree c.schemaDirectory first ∧
        SchemaFile.Lists tree c.browserDirectory second ∧
        LaidOut h tree c (first ++ second) rss t blocks s ∧
        Announced h c t.names.length ∧ n = t.names.length := by
  have hlength : ∀ t : Table, t.records.length = t.names.length := fun t => by
    rw [Table.names, List.length_map]
  rw [draft_eq_ok]
  constructor
  · rintro ⟨⟨_, _, t, _, hsources, hread, htold, hbuilt, htext, hdraft⟩, hwrote⟩
    obtain ⟨rfl, rfl⟩ := Draft.mk.inj hdraft
    obtain ⟨⟨hschemas, hbrowser⟩, first, second, hfirst, hsecond, rfl⟩ := sources_eq_ok.mp hsources
    obtain ⟨rss, hfiles, rfl⟩ := SchemaFile.readAll_eq_ok.mp hread
    obtain ⟨blocks, hblocks, rfl⟩ := Declaration.fileText_eq_ok.mp htext
    rw [hlength] at hwrote
    exact ⟨first, second, rss, t, blocks, hfirst, hsecond, laidOut_of_blocks hfiles hbuilt hblocks,
      ⟨hschemas, hbrowser, htold, hwrote⟩, hlength t⟩
  · rintro ⟨first, second, rss, t, blocks, hfirst, hsecond, hlaid, hannounced, rfl⟩
    -- the layout determines the text, so what is emitted is `s`
    have hblocks := Declaration.blocks_records_iff.mpr hlaid.emitted
    have hlaidOut := laidOut_of_blocks hlaid.read hlaid.built hblocks
    have hsources := sources_eq_ok.mpr
      ⟨⟨hannounced.schemas, hannounced.browserSchemas⟩, first, second, hfirst, hsecond, rfl⟩
    have htext := Declaration.fileText_eq_ok.mpr
      ⟨blocks, hblocks, hlaid.text.trans hlaidOut.text.symm⟩
    exact ⟨⟨first ++ second, rss.flatten, t, s, hsources,
      SchemaFile.readAll_eq_ok.mpr ⟨rss, hlaid.read, rfl⟩, hannounced.ignored, hlaid.built, htext,
      by rw [hlength]⟩, hannounced.written⟩

/-- **What a run writes does not depend on the order of enumeration.** However the tree `t'`
lists what the tree `t` holds, a run succeeds exactly if the declaration file of what `t` holds
can be laid out, told of and written, and this file is what it writes. -/
theorem generate_eq_ok_iff_laidOut {h : Host} {t t' u : FileTree} {p : Path} (c : Config)
    (hr : t.Reorders t') :
    (generate h t' c).result = .ok p ∧ (generate h t' c).tree = u ↔
      p = c.outputPath ∧ ∃ first second rss table blocks s,
        SchemaFile.Lists t c.schemaDirectory first ∧
        SchemaFile.Lists t c.browserDirectory second ∧
        LaidOut h t c (first ++ second) rss table blocks s ∧
        Announced h c table.names.length ∧ h.encodes s = true ∧
        t'.write c.outputPath (Text.Utf8.encode s.toList) = .ok u ∧
        u.Holds c.outputPath (Text.Utf8.encode s.toList) := by
  -- reordering is undone at the draft; after it only the path and the text matter
  rw [generate_eq_ok]
  refine and_congr_right fun _ => ?_
  constructor
  · rintro ⟨d, hdraft, ⟨hencodes, hwrote⟩, hwrite⟩
    obtain ⟨first, second, rss, table, blocks, hfirst, hsecond, hlaidOut, hannounced, -⟩ :=
      draft_eq_ok_iff_laidOut.mp ⟨(hr.draft_eq_ok_iff c).mp hdraft, hwrote⟩
    exact ⟨first, second, rss, table, blocks, d.text, hfirst, hsecond, hlaidOut, hannounced,
      hencodes, hwrite, FileTree.holds_write hwrite⟩
  · rintro ⟨first, second, rss, table, blocks, s, hfirst, hsecond, hlaidOut, hannounced, hencodes,
      hwrite, -⟩
    obtain ⟨hdraft, hwrote⟩ := draft_eq_ok_iff_laidOut.mpr
      ⟨first, second, rss, table, blocks, hfirst, hsecond, hlaidOut, hannounced, rfl⟩
    exact ⟨_, (hr.draft_eq_ok_iff c).mpr hdraft, ⟨hencodes, hwrote⟩, hwrite⟩

/-- A document with one record that only names its namespace. -/
def bareDocument (name : String) : List Char :=
  ("[\x7b\"namespace\":\"" ++ name ++ "\"\x7d]").toList

/-- A directory with two schema files, which is listed in descending order. -/
def descending : FileTree where
  files := [(⟨.here, ["in", "b.json"]⟩, Text.Utf8.encode (bareDocument "tabs")),
    (⟨.here, ["in", "a.json"]⟩, Text.Utf8.encode (bareDocument "menus"))]
  directories := [⟨.here, ["out"]⟩]

/-- The same directory, listed in ascending order. -/
def ascending : FileTree := { descending with files := descending.files.reverse }

/-- There is no second directory, and the second name of the root is the usual one. -/
def oneDirectory : Config where
  schemaDirectory := ⟨.here, ["in"]⟩
  browserDirectory := ⟨.here, ["none"]⟩
  outputDirectory := ⟨.here, ["out"]⟩

/-- What the two files make. -/
def menusAndTabs : Table := ⟨[{ name := "menus" }, { name := "tabs" }], by decide⟩

/-- A text for such a document: what stands behind the opening signs and the key spells the name. -/
theorem read_of_spells {s t u w : List Char} {name : String} (hmark : s.head? ≠ some '\uFEFF')
    (hs : Json.GoesOn '[' s t) (ht : Json.GoesOn '{' t u)
    (hkey : Json.Spells u "namespace" (':' :: w)) (hname : Json.Spells w name ['}', ']']) :
    Json.read s = .ok (.arr [.obj [("namespace", .str name)]]) := by
  -- neither the list nor the object is empty
  have hbracket : (Json.skipSpace t).head? ≠ some ']' := by
    rw [ht]
    simp
  have hbrace : (Json.skipSpace u).head? ≠ some '}' := by
    obtain ⟨_, _, hquote, -⟩ := hkey
    rw [hquote]
    simp
  have hmembers : Json.ReadsMembers [] u [("namespace", .str name)] [']'] :=
    Json.readsMembers_last hkey rfl (Json.reads_string hname) rfl
  have hrecord := Json.reads_object ht hbrace hmembers
  exact Json.read_of_reads hmark
    (Json.reads_list hs hbracket (Json.readsItems_last hrecord rfl)) rfl

/-- A file with such a document is read as its record. -/
theorem read_bareDocument {h : Host} {tree : FileTree} {p : Path} {name : String}
    (hnull : p.hasNull = false) (hlocate : tree.locate p = .ok p)
    (hfile : tree.entry? p = some (.file (Text.Utf8.encode (bareDocument name))))
    (hallows : tree.allows .read p = true)
    (hplain : Json.stripComments (SchemaFile.normalizeNewlines (bareDocument name)) =
      bareDocument name)
    (hread : Json.read (bareDocument name) = .ok (.arr [.obj [("namespace", .str name)]]))
    (htold : h.out (SchemaFile.processing { name }) = .ok ()) :
    SchemaFile.read h tree p = .ok [{ name }] := by
  have hbytes := FileTree.read_eq_ok.mpr
    ⟨p, FileTree.locateToOpen_eq_ok.mpr ⟨hnull, hlocate⟩, hfile, hallows⟩
  have hrecords : Record.listOfJson (.arr [.obj [("namespace", .str name)]]) =
      .ok [{ name }] := rfl
  have hparse := SchemaFile.parse_encode (hplain.symm ▸ hread)
  exact SchemaFile.read_eq_ok.mpr ⟨_, hbytes, hparse.trans hrecords,
    List.forall_mem_singleton.mpr htold⟩

theorem lists_ascending : SchemaFile.Lists ascending oneDirectory.schemaDirectory
    [⟨.here, ["in", "a.json"]⟩, ⟨.here, ["in", "b.json"]⟩] := by
  have hdirectory : ascending.isDirectory ⟨.here, ["in"]⟩ = .ok true :=
    FileTree.isDirectory_of_locate (some .directory) rfl rfl rfl
  have hlist : ascending.list ⟨.here, ["in"]⟩ = .ok ["a.json", "b.json"] := rfl
  have hfiles : ∀ name ∈ ["a.json", "b.json"],
      ascending.isFile (Path.child ⟨.here, ["in"]⟩ name) = .ok true := by decide +kernel
  have hnames : ∀ name, name ∈ ["a.json", "b.json"] → SchemaFile.isSchemaName name = true := by
    decide +kernel
  -- every entry of the directory is a schema file
  have hcomplete : ∀ name, name ∈ ["a.json", "b.json"] ↔ name ∈ ["a.json", "b.json"] ∧
      ascending.isFile (Path.child ⟨.here, ["in"]⟩ name) = .ok true ∧
      SchemaFile.isSchemaName name = true :=
    fun name => ⟨fun hname => ⟨hname, hfiles name hname, hnames name hname⟩, And.left⟩
  exact .present hdirectory hlist (fun name hname => ⟨true, hfiles name hname⟩) (by decide +kernel)
    hcomplete

theorem read_ascending : List.Forall₂ (fun p rs => SchemaFile.read .verbatim ascending p = .ok rs)
    [⟨.here, ["in", "a.json"]⟩, ⟨.here, ["in", "b.json"]⟩]
    [[{ name := "menus" }], [{ name := "tabs" }]] := by
  have hmenus := read_of_spells (s := bareDocument "menus") (by decide) rfl rfl
    ⟨_, _, rfl, rfl, rfl⟩ ⟨_, _, rfl, rfl, rfl⟩
  have htabs := read_of_spells (s := bareDocument "tabs") (by decide) rfl rfl
    ⟨_, _, rfl, rfl, rfl⟩ ⟨_, _, rfl, rfl, rfl⟩
  exact .cons (read_bareDocument rfl rfl rfl rfl (by decide) hmenus rfl)
    (.cons (read_bareDocument rfl rfl rfl rfl (by decide) htabs rfl) .nil)

theorem write_descending (bytes : List UInt8) :
    descending.write oneDirectory.outputPath bytes =
      .ok (descending.withFile ⟨.here, ["out", "index.d.ts"]⟩ bytes) := by
  have hpath : oneDirectory.outputPath = ⟨.here, ["out", "index.d.ts"]⟩ := by decide +kernel
  have hplace : descending.locateToOpen ⟨.here, ["out", "index.d.ts"]⟩ =
      .ok ⟨.here, ["out", "index.d.ts"]⟩ :=
    FileTree.locateToOpen_eq_ok.mpr ⟨rfl, rfl⟩
  rw [hpath]
  exact FileTree.write_eq_ok.mpr ⟨_, hplace, rfl, rfl⟩

/-- The first file comes first, whichever is listed first. -/
theorem generate_eq_ok_iff_laidOut_descending : ascending.Reorders descending ∧
    (generate .verbatim descending oneDirectory).result = .ok oneDirectory.outputPath ∧
    (generate .verbatim descending oneDirectory).tree = descending.withFile
      ⟨.here, ["out", "index.d.ts"]⟩ (Text.Utf8.encode (linesText (header ++
        ["declare namespace browser.menus \x7b", "\x7d", "",
          "declare namespace browser.tabs \x7b", "\x7d", "",
          "declare const messenger: typeof browser;"])).toList) := by
  have horder : ascending.Reorders descending :=
    ⟨by decide, (List.reverse_perm _).symm, .refl _, .refl _⟩
  refine ⟨horder, (generate_eq_ok_iff_laidOut oneDirectory horder).mpr ⟨rfl, ?_⟩⟩
  have hnone : SchemaFile.Lists ascending ⟨.here, ["none"]⟩ [] :=
    .missing (FileTree.isDirectory_of_locate none rfl rfl rfl)
  -- the tables and the lines of this run, in the order of the file names
  have hbuilt : Table.build [[{ name := "menus" }], [{ name := "tabs" }]].flatten
      (.listed oneDirectory.ignoreList) = .ok menusAndTabs := rfl
  have hblocks : Declaration.Blocks menusAndTabs "browser" menusAndTabs.records
      [["declare namespace browser.menus \x7b", "\x7d"],
        ["declare namespace browser.tabs \x7b", "\x7d"]] := .cons rfl (.cons rfl .nil)
  exact ⟨_, _, _, _, _, _, lists_ascending, hnone, laidOut_of_blocks read_ascending hbuilt hblocks,
    ⟨rfl, rfl, fun _ => rfl, rfl⟩, rfl, write_descending _,
    FileTree.holds_write (write_descending _)⟩

end Generator

end Typings
