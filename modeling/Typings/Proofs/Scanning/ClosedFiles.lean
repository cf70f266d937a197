import Typings.Proofs.FileLayout
import Typings.Proofs.Scanning.Lexer

/-!
# Files are closed

Names are bare, but everything else that a schema says in texts of its own may hold any signs:
descriptions, listed texts, constants and the keys of object types. None of it opens or closes
anything in the file that is written. The file ends in code and outside of all brackets, and so
does each of its blocks, as each of them starts there.

The file is put together from bare names (`Composed`), and texts of that kind are neutral: a reader
that starts in code is back in code behind them, with the same brackets open. What is left to show
is that the frame around the blocks, which holds marks of its own, is neutral too.
-/

namespace Typings.Declaration

open Lexer (Neutral scan start neutral_of_bare)
open Schema (Record)
open Text (IsBare)

/-! ## Around the blocks -/

/-- The lines of the generic interface. -/
def interfaceOfEvents : List String :=
  ["interface " ++ eventInterface ++ "<TCallback extends (...args: any[]) => any> \x7b"] ++
    ["  addListener(cb: TCallback, ...params: any[]): void;",
     "  removeListener(cb: TCallback): void;",
     "  hasListener(cb: TCallback): boolean;"] ++ ["\x7d"]

theorem interfaceOfEvents_composed :
    Composed IsBare (linesText interfaceOfEvents) := by
  have hplain : ∀ {s : String}, s.toList.all Text.isPlain = true → Composed IsBare s := .plain
  have hany : Composed IsBare ("...args: any" ++ "[]") := (hplain (by decide)).append .brackets
  -- the head, the three methods, and then the braces around them
  have hhead := ((hplain (s := "interface " ++ eventInterface ++ "<TCallback extends ")
    (by decide)).append hany.round).append (hplain (s := " => any>") (by decide))
  have hparams : Composed IsBare ("cb: TCallback, ...params: any" ++ "[]") :=
    (hplain (by decide)).append .brackets
  have hcallback : Composed IsBare "cb: TCallback" := hplain (by decide)
  have hadd := ((hplain (s := "  addListener") (by decide)).append hparams.round).append
    (hplain (s := ": void;") (by decide))
  have hremove := ((hplain (s := "  removeListener") (by decide)).append hcallback.round).append
    (hplain (s := ": void;") (by decide))
  have hhas := ((hplain (s := "  hasListener") (by decide)).append hcallback.round).append
    (hplain (s := ": boolean;") (by decide))
  have hmembers := (hadd.line.lines hremove.line).lines hhas.line
  have hbraced := Composed.braced hhead hmembers (hplain (s := "") (by decide))
  simpa only [interfaceOfEvents, eventInterface, String.reduceAppend, List.cons_append,
    List.nil_append] using hbraced

/-- Nothing of the header is left open. -/
theorem neutral_header : Neutral (linesText header) := by
  have hlines : header = ["//" ++ " AUTOMATICALLY GENERATED from WebExtension API schema files."] ++
      ["//" ++ " This file should not be manually modified."] ++ [""] ++ interfaceOfEvents ++
        [""] := rfl
  have hempty : Neutral (linesText [""]) := Neutral.plain (by decide)
  rw [hlines, linesText_append, linesText_append, linesText_append, linesText_append]
  refine Neutral.append (Neutral.append (Neutral.append ?_ hempty) ?_) hempty
  · exact Neutral.append (Neutral.lineComment (by decide)) (Neutral.lineComment (by decide))
  · exact neutral_of_bare interfaceOfEvents_composed

theorem neutral_aliasLines {t : Table} {root : String} (hroot : IsBare root)
    {globalAlias : Option String} (halias : ∀ name, globalAlias = some name → IsBare name) :
    Neutral (linesText (aliasLines t root globalAlias)) := by
  refine neutral_of_bare ?_
  cases globalAlias with
  | none =>
    rw [aliasLines, linesText_nil]
    exact .plain (by decide)
  | some name =>
    unfold aliasLines
    dsimp only
    -- an empty table has no root that could have a second name
    split
    · rw [linesText_nil]
      exact .plain (by decide)
    · exact (((((Composed.plain (by decide)).append (.name (halias name rfl))).append
        (.plain (by decide))).append (.name hroot)).append (.plain (by decide))).line

theorem neutral_spaced {blocks : List (List String)}
    (h : ∀ block ∈ blocks, Neutral (linesText block)) : Neutral (linesText (spaced blocks)) := by
  induction blocks with
  | nil => exact fun _ => rfl
  | cons block blocks ih =>
    obtain ⟨hblock, hblocks⟩ := List.forall_mem_cons.mp h
    -- the empty line behind a block changes nothing
    have hempty : Neutral (linesText [""]) := Neutral.plain (by decide)
    have htext : linesText (spaced (block :: blocks)) =
        linesText block ++ linesText [""] ++ linesText (spaced blocks) := by
      rw [← linesText_append, ← linesText_append]
      rfl
    rw [htext]
    exact (hblock.append hempty).append (ih hblocks)

/-! ## Files -/

/--
**Files are closed.**

Take a table all of whose records name everything by bare names and describe everything by
texts, whatever these say. Then its file can be written. Reading it ends in code and outside of
all brackets, and the same is true at the start and at the end of each of its blocks.
-/
theorem scan_fileText {t : Table} {root : String} {globalAlias : Option String}
    (hrecords : ∀ r ∈ t.records, r.IsWritable IsBare) (hroot : IsBare root)
    (halias : ∀ name, globalAlias = some name → IsBare name) :
    ∃ text blocks, (fileText t root globalAlias).result = .ok text ∧
      Blocks t root t.records blocks ∧
      text = linesText (header ++ spaced blocks ++ aliasLines t root globalAlias) ∧
      scan start text.toList = some start ∧
      ∀ before block after, blocks = before ++ block :: after →
        scan start (linesText (header ++ spaced before)).toList = some start ∧
        scan start (linesText (header ++ spaced before ++ block)).toList = some start := by
  obtain ⟨blocks, hblocks, hcomposed⟩ := exists_composed_blocks hrecords root hroot
  have hneutral : ∀ block ∈ blocks, Neutral (linesText block) := fun block hblock =>
    neutral_of_bare (hcomposed block hblock)
  -- what holds of all blocks holds of the first ones, up to any block
  have hspaced : ∀ bs : List (List String), bs ⊆ blocks →
      Neutral (linesText (header ++ spaced bs)) := by
    intro bs hbs
    rw [linesText_append]
    exact neutral_header.append (neutral_spaced fun b hb => hneutral b (hbs hb))
  refine ⟨_, blocks, fileText_eq_ok.mpr ⟨blocks, hblocks, rfl⟩, hblocks, rfl, ?_, ?_⟩
  · rw [linesText_append]
    exact (hspaced blocks (List.Subset.refl _)).append (neutral_aliasLines hroot halias) []
  · rintro before block after rfl
    have hbefore := hspaced before (List.subset_append_left _ _)
    refine ⟨hbefore [], ?_⟩
    rw [linesText_append]
    exact hbefore.append (hneutral block (by simp)) []

/-- A table whose texts open and close whatever they can. -/
def unruly : Table where
  records :=
    [{ name := "tabs"
       description := .str "*/ ( [ // \x7b \" /*"
       types :=
         [⟨{ id := .str "Tab", description := .str "\"*/" },
           .object (some
             [⟨"\x7b\"*/", ⟨{ deprecated := .str "*/ ]" }, .string (some ["\"(", "//"])⟩⟩])
             [] [] (some ⟨{}, .array none⟩)⟩,
          ⟨{ extends? := .str "Window" }, .object none [] [] none⟩,
          ⟨{ id := .str "Close" }, .constant (.str "\x7d\\")⟩]
       functions :=
         [⟨.str "delete", .bool true, .null,
           [⟨.str "tab", ⟨{ optional := true, description := .str "*/)" },
             .reference (.str "windows.Window")⟩⟩], none, .str "[", false⟩]
       events := [⟨.str "onMoved", .bool false, .str "/*", [], none, .bool false, false⟩]
       properties := [⟨"NONE", ⟨{}, .choice [⟨{}, .boolean⟩, ⟨{}, .function [] none .null⟩]⟩⟩] }]
  nodup := by decide

theorem scan_fileText_unruly :
    (∀ r ∈ unruly.records, r.IsWritable IsBare) ∧ IsBare "browser" ∧
      (∀ name, some "chrome" = some name → IsBare name) ∧
      ∃ text blocks, (fileText unruly "browser" (some "chrome")).result = .ok text ∧
        Blocks unruly "browser" unruly.records blocks ∧
        text = linesText (header ++ spaced blocks ++ aliasLines unruly "browser" (some "chrome")) ∧
        scan start text.toList = some start ∧
        ∀ before block after, blocks = before ++ block :: after →
          scan start (linesText (header ++ spaced before)).toList = some start ∧
          scan start (linesText (header ++ spaced before ++ block)).toList = some start := by
  have hrecords : ∀ r ∈ unruly.records, r.IsWritable IsBare := by
    intro r hr
    obtain rfl := List.mem_singleton.mp hr
    exact ⟨by decide, ⟨by decide, by decide, by decide⟩, by decide, by decide, by decide,
      by decide⟩
  have halias : ∀ name, some "chrome" = some name → IsBare name := by
    rintro _ ⟨⟩
    decide
  exact ⟨hrecords, by decide, halias, scan_fileText hrecords (by decide) halias⟩

end Typings.Declaration
