import Typings.Proofs.BareChoices
import Typings.Proofs.Runs
import Typings.Proofs.Scanning.Values

/-!
# How bad files are refused

A file that can be read is one whose bytes can be had. Whether it holds schema records is told
by its flaws: bytes that are no text, text that is no document, or what is wrong with the
document.

**The first flaw decides** how reading ends. A problem is reported under the name of the file,
after the name of the namespace if it is found inside a record, and ends a run with exit code 1.
Choices without parts are no problem in this sense: reading breaks off at them with a fault that
names nothing.

**A file without flaws is read**, unless the user cannot be told of its records. Their names are
shown as they stand, so a name in which a tag is closed breaks off the reading as well. On a lawful
host that takes a name that is not plain.

Everything here follows from `read_of_flaws`, which lists the ways in which reading can end.
-/

namespace Typings

open Json (Fields field)
open Schema (Flaw HasBareChoices Problem Record StopsAt)

namespace SchemaFile

variable {h : Host} {t : FileTree} {p : Path} {bytes : List UInt8}

/-- The bytes are a text, and the text is this document. -/
def Holds (bytes : List UInt8) (v : Json) : Prop :=
  ∃ text, Text.Utf8.decode bytes = .ok text ∧
    Json.read (Json.stripComments (normalizeNewlines text)) = .ok v

/-- The flaws of a file. -/
def flaws (bytes : List UInt8) : List Flaw :=
  match Text.Utf8.decode bytes with
  | .error defect => [.problem (.notUtf8 defect)]
  | .ok text =>
    match Json.read (Json.stripComments (normalizeNewlines text)) with
    | .error defect => [.problem (.notJson defect)]
    | .ok v => Record.listFlaws v

theorem flaws_of_holds {v : Json} (hholds : Holds bytes v) :
    flaws bytes = Record.listFlaws v := by
  obtain ⟨text, htext, hv⟩ := hholds
  simp only [flaws, htext, hv]

/-- **A file is parsed up to its first flaw.** -/
theorem stopsAt_parse (bytes : List UInt8) : StopsAt (parse bytes) (flaws bytes) := by
  unfold parse flaws
  cases Text.Utf8.decode bytes with
  | error defect => exact .refuse (.notUtf8 defect) []
  | ok text =>
    dsimp only
    cases Json.read (Json.stripComments (normalizeNewlines text)) with
    | error defect => exact .refuse (.notJson defect) []
    | ok v => exact Record.stopsAt_listOfJson v

/-- Bytes make records exactly if they have no flaws. -/
theorem exists_parse_iff : (∃ rs, parse bytes = .ok rs) ↔ flaws bytes = [] := by
  have hparse := stopsAt_parse bytes
  cases hflaws : flaws bytes with
  | nil =>
    rw [hflaws] at hparse
    exact iff_of_true hparse rfl
  | cons flaw rest =>
    rw [hflaws] at hparse
    simp [show parse bytes = .error flaw.fault from hparse]

/-- **How reading a file ends**: with its records, with the fault that keeps the user from being
told of one of them, or with its first flaw. -/
theorem read_of_flaws (hbytes : t.read p = .ok bytes) :
    (∃ rs, parse bytes = .ok rs ∧ Told h rs ∧ read h t p = .ok rs) ∨
    (∃ rs problem, parse bytes = .ok rs ∧ Untold h rs problem ∧
      read h t p = .error (.unprintable problem)) ∨
    ∃ flaw rest, flaws bytes = flaw :: rest ∧
      read h t p = .error (flaw.fault.inFile p.toString) := by
  cases hflaws : flaws bytes with
  | nil =>
    obtain ⟨rs, hrs⟩ := exists_parse_iff.mpr hflaws
    -- the records are there, and what is left is to tell of them
    cases htell : tell h rs with
    | ok =>
      have htold := tell_eq_ok.mp htell
      exact .inl ⟨rs, hrs, htold, read_eq_ok.mpr ⟨bytes, hbytes, hrs, htold⟩⟩
    | error f =>
      obtain ⟨problem, huntold, -⟩ := tell_eq_error.mp htell
      exact .inr (.inl ⟨rs, problem, hrs, huntold,
        read_eq_error.mpr (.inr (.inr ⟨bytes, rs, problem, hbytes, hrs, huntold, rfl⟩))⟩)
  | cons flaw rest =>
    -- parsing stops at the first flaw, before anything is told
    have hparse := stopsAt_parse bytes
    rw [hflaws] at hparse
    exact .inr (.inr ⟨flaw, rest, rfl,
      read_eq_error.mpr (.inr (.inl ⟨bytes, flaw.fault, hbytes, hparse, rfl⟩))⟩)

/-- The user can be told of all records that the bytes make. -/
def AllTold (h : Host) (bytes : List UInt8) : Prop := ∀ rs, parse bytes = .ok rs → Told h rs

theorem not_told_of_untold {rs : List Record} {problem : ConsoleProblem}
    (huntold : Untold h rs problem) : ¬ Told h rs := by
  obtain ⟨before, r, after, rfl, -, hr⟩ := huntold
  intro htold
  cases (htold r (by simp)).symm.trans hr

/-- Bytes with a flaw make no records, so there is nothing to tell. -/
theorem allTold_of_flaw {flaw : Flaw} {rest : List Flaw} (hflaws : flaws bytes = flaw :: rest) :
    AllTold h bytes := by
  intro rs hrs
  have hnone := exists_parse_iff.mp ⟨rs, hrs⟩
  rw [hflaws] at hnone
  cases hnone

/-- **A file is read exactly if it has no flaws and the user can be told of its records.** -/
theorem exists_read_iff (hbytes : t.read p = .ok bytes) :
    (∃ rs, read h t p = .ok rs) ↔ flaws bytes = [] ∧ AllTold h bytes := by
  constructor
  · rintro ⟨rs, hread⟩
    obtain ⟨bytes', hbytes', hrs, htold⟩ := read_eq_ok.mp hread
    obtain rfl : bytes' = bytes := Except.ok.inj (hbytes'.symm.trans hbytes)
    refine ⟨exists_parse_iff.mp ⟨rs, hrs⟩, fun rs' hrs' => ?_⟩
    obtain rfl : rs' = rs := Except.ok.inj (hrs'.symm.trans hrs)
    exact htold
  · rintro ⟨hflaws, htold⟩
    obtain ⟨rs, hrs⟩ := exists_parse_iff.mpr hflaws
    exact ⟨rs, read_eq_ok.mpr ⟨bytes, hbytes, hrs, htold rs hrs⟩⟩

/-- **Reading fails with the first flaw**, which is told with the name of the file. -/
theorem read_of_head? (hbytes : t.read p = .ok bytes) {flaw : Flaw}
    (hhead : (flaws bytes).head? = some flaw) :
    read h t p = .error (flaw.fault.inFile p.toString) := by
  obtain ⟨rest, hflaws⟩ := List.head?_eq_some_iff.mp hhead
  have hparse := stopsAt_parse bytes
  rw [hflaws] at hparse
  exact read_eq_error.mpr (.inr (.inl ⟨bytes, flaw.fault, hbytes, hparse, rfl⟩))

/-- Reading breaks off where the user cannot be told of a record. -/
theorem read_of_untold (hbytes : t.read p = .ok bytes) {rs : List Record}
    {problem : ConsoleProblem} (hrs : parse bytes = .ok rs) (huntold : Untold h rs problem) :
    read h t p = .error (.unprintable problem) :=
  read_eq_error.mpr (.inr (.inr ⟨bytes, rs, problem, hbytes, hrs, huntold, rfl⟩))

/-- Reading the file gives records, or a refusal that names it. -/
def ReadOrRefused (h : Host) (t : FileTree) (p : Path) : Prop :=
  (∃ rs, read h t p = .ok rs) ∨
    ∃ problem, read h t p = .error (.refused (some p.toString) problem)

/-- **Two things keep a file from being read or refused**: choices without parts, and a record
that the user cannot be told of. -/
theorem readOrRefused_iff (hbytes : t.read p = .ok bytes) : ReadOrRefused h t p ↔
    (∀ found, (flaws bytes).head? ≠ some (.bareChoices found)) ∧ AllTold h bytes := by
  rcases read_of_flaws (h := h) hbytes with ⟨rs, hrs, htold, hread⟩ |
    ⟨rs, problem, hrs, huntold, hread⟩ | ⟨flaw, rest, hflaws, hread⟩
  · have hflaws := exists_parse_iff.mp ⟨rs, hrs⟩
    refine iff_of_true (.inl ⟨rs, hread⟩) ⟨by simp [hflaws], fun rs' hrs' => ?_⟩
    obtain rfl : rs' = rs := Except.ok.inj (hrs'.symm.trans hrs)
    exact htold
  · refine iff_of_false ?_ fun hall => not_told_of_untold huntold (hall.2 rs hrs)
    simp [ReadOrRefused, hread]
  · have htold : AllTold h bytes := allTold_of_flaw hflaws
    cases flaw <;> simp [ReadOrRefused, hread, hflaws, htold, Flaw.fault, Fault.inFile]

/-- On a lawful host the user can be told of records with plain names. -/
theorem allTold_of_isPlain (hlawful : h.IsLawful)
    (hplain : ∀ rs, parse bytes = .ok rs → ∀ r ∈ rs, Host.IsPlain r.name) : AllTold h bytes := by
  intro rs hrs r hr
  exact hlawful.plain _ (Host.isPlain_append.mpr ⟨by decide +kernel, hplain rs hrs r hr⟩)

/-- Where the first flaw is in the choices of a type, an object of the document has choices that
are a number or `true`. -/
theorem exists_hasBareChoices {found : Json.Kind}
    (hhead : (flaws bytes).head? = some (.bareChoices found)) :
    ∃ v, Holds bytes v ∧ ∃ fields ∈ v.objects, HasBareChoices found fields := by
  have hmem := List.mem_of_head? hhead
  unfold flaws at hmem
  -- bytes that are no text, and texts that are no document, have other flaws
  cases htext : Text.Utf8.decode bytes with
  | error defect => simp [htext] at hmem
  | ok text =>
    rw [htext] at hmem
    dsimp only at hmem
    cases hv : Json.read (Json.stripComments (normalizeNewlines text)) with
    | error defect => simp [hv] at hmem
    | ok v =>
      rw [hv] at hmem
      exact ⟨v, ⟨text, htext, hv⟩, Record.accounted_listFlaws v found hmem⟩

/-- A problem inside a record is told with the name of its namespace, if all records before it
are in order. -/
theorem read_within {before after : List Json} {fields : Fields} {name : String}
    {problem : Problem} (hbytes : t.read p = .ok bytes)
    (hdocument : Holds bytes (.arr (before ++ .obj fields :: after)))
    (hbefore : ∀ v ∈ before, Record.flaws v = []) (hname : field "namespace" fields = .str name)
    (hproblem : (Record.contentFlaws fields).head? = some (.problem problem)) :
    read h t p = .error (.refused (some p.toString) (.within name problem)) := by
  obtain ⟨rest, hrest⟩ := List.head?_eq_some_iff.mp hproblem
  have hhead : (flaws bytes).head? = some (.problem (.within name problem)) := by
    rw [flaws_of_holds hdocument, Record.listFlaws, List.flatMap_append,
      List.flatMap_eq_nil_iff.mpr hbefore, List.nil_append, List.flatMap_cons, Record.flaws]
    simp [hname, hrest, Flaw.within]
  exact read_of_head? hbytes hhead

end SchemaFile

namespace CommandLine

open SchemaFile (AllTold Holds ReadOrRefused Untold flaws parse)

variable {h : Host} {t : FileTree} {p : Path}

/-- What is said of the file `p` that is refused. -/
def refusal (p : Path) (problem : Problem) : String := p.toString ++ ": " ++ problem.message

/-- What the error console is asked to show of it. -/
def refusalText (h : Host) (p : Path) (problem : Problem) : String :=
  Host.errorStyle "Error reading schema file:" ++ h.escape (refusal p problem)

theorem report_refused (h : Host) (p : Path) (problem : Problem) :
    report h (.refused (some p.toString) problem) =
      match h.err (refusalText h p problem) with
      | .ok errors => .exit 1 errors
      | .error problem => .raised (.unprintable problem) := rfl

/-- **A run ends at the first file that is refused**: with exit code 1 and what is shown of the
refusal, if it can be shown. -/
structure EndsRefused (h : Host) (t : FileTree) (c : Config) (p : Path) (problem : Problem) :
    Prop where
  tree : (execute h t c).tree = t
  shown : ∀ errors, h.err (refusalText h p problem) = .ok errors →
    (execute h t c).ending = .exit 1 errors
  unshown : ∀ trouble, h.err (refusalText h p problem) = .error trouble →
    (execute h t c).ending = .raised (.unprintable trouble)

theorem endsRefused_of_read {c : Config} {before after : List Path} {problem : Problem}
    (hpaths : (Generator.sources h t c).result = .ok (before ++ p :: after))
    (hbefore : ∀ q ∈ before, ∃ rs, SchemaFile.read h t q = .ok rs)
    (hp : SchemaFile.read h t p = .error (.refused (some p.toString) problem)) :
    EndsRefused h t c p problem := by
  have heffect := (givesUp_of_firstFault hpaths ⟨before, p, after, rfl, hbefore, hp⟩).effect
  have hreport := report_refused h p problem
  exact {
    tree := by rw [heffect]
    shown := fun errors herr => by rw [heffect, hreport, herr]
    unshown := fun trouble herr => by rw [heffect, hreport, herr] }

/--
**How a bad file is told of.**

A file whose bytes can be had gives records exactly if nothing is wrong with it and the user can be
told of its records. It is refused by name otherwise, with two exceptions. The first is that the
first thing wrong with it is a type whose choices are a number or `true`. The second is that nothing
is wrong with it, but a message with the name of one of its namespaces cannot be shown; on a lawful
host this takes a name that is not plain. In both cases reading breaks off.

What is refused inside the record of a namespace is told with that name. And if the file is
refused, a run that comes upon it changes nothing and ends with exit code 1 and a message that names
the file. On a lawful host the message can be shown if it is whole.
-/
theorem refused_by_name {bytes : List UInt8} (hbytes : t.read p = .ok bytes) :
    ((∃ rs, SchemaFile.read h t p = .ok rs) ↔ flaws bytes = [] ∧ AllTold h bytes) ∧
    (ReadOrRefused h t p ↔
      (∀ found, (flaws bytes).head? ≠ some (.bareChoices found)) ∧ AllTold h bytes) ∧
    (h.IsLawful → (∀ rs, parse bytes = .ok rs → ∀ r ∈ rs, Host.IsPlain r.name) →
      AllTold h bytes) ∧
    (∀ rs trouble, parse bytes = .ok rs → Untold h rs trouble →
      SchemaFile.read h t p = .error (.unprintable trouble)) ∧
    (∀ found, (flaws bytes).head? = some (.bareChoices found) →
      SchemaFile.read h t p = .error (.choicesWithoutParts found) ∧
        ∃ v, Holds bytes v ∧ ∃ fields ∈ v.objects, HasBareChoices found fields) ∧
    (∀ before fields after name problem, Holds bytes (.arr (before ++ .obj fields :: after)) →
      (∀ v ∈ before, Record.flaws v = []) → field "namespace" fields = .str name →
      (Record.contentFlaws fields).head? = some (.problem problem) →
      ∃ inside, SchemaFile.read h t p = .error (.refused (some p.toString) inside) ∧
        inside.message = "in namespace '" ++ name ++ "': " ++ problem.message) ∧
    ∀ problem, (flaws bytes).head? = some (.problem problem) →
      SchemaFile.read h t p = .error (.refused (some p.toString) problem) ∧
      (h.IsLawful → Host.IsWhole (refusal p problem) →
        ∃ errors, h.err (refusalText h p problem) = .ok errors) ∧
      ∀ c before after, (Generator.sources h t c).result = .ok (before ++ p :: after) →
        (∀ q ∈ before, ∃ rs, SchemaFile.read h t q = .ok rs) → EndsRefused h t c p problem := by
  refine ⟨SchemaFile.exists_read_iff hbytes, SchemaFile.readOrRefused_iff hbytes,
    SchemaFile.allTold_of_isPlain, fun _ _ => SchemaFile.read_of_untold hbytes,
    fun found hhead => ⟨SchemaFile.read_of_head? hbytes hhead, ?_⟩, ?_, ?_⟩
  -- reading that breaks off leads to an object, and a problem inside a record to its message
  · exact SchemaFile.exists_hasBareChoices hhead
  · intro before fields after name problem hdocument hbefore hname hproblem
    exact ⟨_, SchemaFile.read_within hbytes hdocument hbefore hname hproblem, rfl⟩
  · intro problem hhead
    have hread := SchemaFile.read_of_head? (h := h) hbytes hhead
    refine ⟨hread, fun hlawful hwhole => ?_, fun c before after hpaths hbefore =>
      endsRefused_of_read hpaths hbefore hread⟩
    exact hlawful.escaped _ _ (by decide +kernel) hwhole

/-- A document with a function that has no name. -/
def namelessDocument : List Char :=
  "[\x7b\"namespace\":\"mail\",\"functions\":[\x7b\x7d]\x7d]".toList

/-- A document with a type whose choices are a number. -/
def numberedDocument : List Char :=
  "[\x7b\"namespace\":\"mail\",\"types\":[\x7b\"choices\":5\x7d]\x7d]".toList

/-- A directory with one schema file. -/
def mailTree (document : List Char) : FileTree where
  files := [(⟨.here, ["in", "mail.json"]⟩, Text.Utf8.encode document)]
  directories := []

/-- The path of the file. -/
def mailPath : Path := ⟨.here, ["in", "mail.json"]⟩

theorem read_mailTree (document : List Char) :
    (mailTree document).read mailPath = .ok (Text.Utf8.encode document) :=
  FileTree.read_eq_ok.mpr ⟨mailPath,
    FileTree.locateToOpen_eq_ok.mpr ⟨rfl, rfl⟩, rfl, rfl⟩

section

open Json (Reads ReadsMembers Spells read_of_reads reads_string reads_scalar reads_list reads_object
  reads_object_nil readsItems_last readsMembers_last readsMembers_next)

theorem read_namelessDocument : Json.read namelessDocument =
    .ok (.arr [.obj [("namespace", .str "mail"), ("functions", .arr [.obj []])]]) := by
  have hnamespace : Spells "\"namespace\":\"mail\",\"functions\":[\x7b\x7d]\x7d]".toList
    "namespace" ":\"mail\",\"functions\":[\x7b\x7d]\x7d]".toList := ⟨_, _, rfl, rfl, rfl⟩
  have hmail : Spells "\"mail\",\"functions\":[\x7b\x7d]\x7d]".toList
    "mail" ",\"functions\":[\x7b\x7d]\x7d]".toList := ⟨_, _, rfl, rfl, rfl⟩
  have hfunctions : Spells "\"functions\":[\x7b\x7d]\x7d]".toList
    "functions" ":[\x7b\x7d]\x7d]".toList := ⟨_, _, rfl, rfl, rfl⟩
  -- from the inside out
  have hlist : Reads "[\x7b\x7d]\x7d]".toList (.arr [.obj []]) "\x7d]".toList :=
    reads_list rfl (by decide) (readsItems_last (reads_object_nil rfl rfl) rfl)
  have hmembers : ReadsMembers [] _ _ [']'] :=
    readsMembers_next hnamespace rfl (reads_string hmail) rfl
      (readsMembers_last hfunctions rfl hlist rfl)
  exact read_of_reads (by decide)
    (reads_list rfl (by decide) (readsItems_last (reads_object rfl (by decide) hmembers) rfl)) rfl

theorem read_numberedDocument : Json.read numberedDocument =
    .ok (.arr
      [.obj [("namespace", .str "mail"), ("types", .arr [.obj [("choices", .int 5)]])]]) := by
  have hnamespace : Spells
    "\"namespace\":\"mail\",\"types\":[\x7b\"choices\":5\x7d]\x7d]".toList "namespace"
    ":\"mail\",\"types\":[\x7b\"choices\":5\x7d]\x7d]".toList := ⟨_, _, rfl, rfl, rfl⟩
  have hmail : Spells "\"mail\",\"types\":[\x7b\"choices\":5\x7d]\x7d]".toList
    "mail" ",\"types\":[\x7b\"choices\":5\x7d]\x7d]".toList := ⟨_, _, rfl, rfl, rfl⟩
  have htypes : Spells "\"types\":[\x7b\"choices\":5\x7d]\x7d]".toList
    "types" ":[\x7b\"choices\":5\x7d]\x7d]".toList := ⟨_, _, rfl, rfl, rfl⟩
  have hchoices : Spells "\"choices\":5\x7d]\x7d]".toList
    "choices" ":5\x7d]\x7d]".toList := ⟨_, _, rfl, rfl, rfl⟩
  -- from the inside out
  have hfive : Reads "5\x7d]\x7d]".toList (.int 5) "\x7d]\x7d]".toList :=
    reads_scalar rfl (by decide) rfl (by decide)
  have htype : Reads "\x7b\"choices\":5\x7d]\x7d]".toList (.obj [("choices", .int 5)])
    "]\x7d]".toList := reads_object rfl (by decide) (readsMembers_last hchoices rfl hfive rfl)
  have hlist : Reads "[\x7b\"choices\":5\x7d]\x7d]".toList
      (.arr [.obj [("choices", .int 5)]]) "\x7d]".toList :=
    reads_list rfl (by decide) (readsItems_last htype rfl)
  have hmembers : ReadsMembers [] _ _ [']'] :=
    readsMembers_next hnamespace rfl (reads_string hmail) rfl
      (readsMembers_last htypes rfl hlist rfl)
  exact read_of_reads (by decide)
    (reads_list rfl (by decide) (readsItems_last (reads_object rfl (by decide) hmembers) rfl)) rfl

end

/-- A text without comments and carriage returns is what its bytes hold. -/
theorem holds_encode {document : List Char} {v : Json}
    (hplain : Json.stripComments (SchemaFile.normalizeNewlines document) = document)
    (hread : Json.read document = .ok v) : Holds (Text.Utf8.encode document) v :=
  ⟨document, Text.Utf8.decode_encode document, hplain.symm ▸ hread⟩

theorem refused_by_name_mail :
    (mailTree namelessDocument).read mailPath = .ok (Text.Utf8.encode namelessDocument) ∧
    ∃ inside, SchemaFile.read .verbatim (mailTree namelessDocument) mailPath =
        .error (.refused (some "in/mail.json") inside) ∧
      inside.message = "in namespace 'mail': function without a name" := by
  have hdocument : Holds (Text.Utf8.encode namelessDocument)
      (.arr [.obj [("namespace", .str "mail"), ("functions", .arr [.obj []])]]) :=
    holds_encode (by decide) read_namelessDocument
  have hbytes := read_mailTree namelessDocument
  obtain ⟨-, -, -, -, -, hwithin, -⟩ := refused_by_name (h := .verbatim) hbytes
  exact ⟨hbytes, hwithin [] _ [] "mail" .namelessFunction hdocument (by simp) rfl rfl⟩

/-- Choices that are a number are not refused, on whatever host. -/
theorem not_readOrRefused : ¬ ∃ h : Host, ∀ (t : FileTree) (p : Path) (bytes : List UInt8),
    t.read p = .ok bytes → ReadOrRefused h t p := by
  rintro ⟨h, hall⟩
  have hbytes := read_mailTree numberedDocument
  have hdocument : Holds (Text.Utf8.encode numberedDocument)
      (.arr [.obj [("namespace", .str "mail"), ("types", .arr [.obj [("choices", .int 5)]])]]) :=
    holds_encode (by decide) read_numberedDocument
  have hflaws : flaws (Text.Utf8.encode numberedDocument) = [.bareChoices .int] := by
    rw [SchemaFile.flaws_of_holds hdocument]
    rfl
  have hnone := ((SchemaFile.readOrRefused_iff hbytes).mp (hall _ _ _ hbytes)).1
  exact hnone .int (by rw [hflaws]; rfl)

end CommandLine

end Typings
