import Typings.CommandLine
import Typings.Proofs.Files.Reading
import Typings.Proofs.Utf8

/-!
# All or nothing

A run is meant to be all or nothing: it writes its file and succeeds, or it fails and changes
nothing. This module says how far that is so.

**Stages.** A draft is made in five stages: the schema files are looked for, they are read, the
user is told what is left out, the records are merged, and the declarations are written out. Then
the file is opened. A run that fails at one of these stages leaves the tree as it was, and the
inductive predicate `Generator.Fails` has one constructor for each of them.

**Endings.** What comes after the file was opened can fail as well. So there are three ways for a
run to end (`generate_cases` is the inversion lemma, and everything else here follows from it):

* it writes its text, and the exit code is 0 (`Writes`);
* it gives up at one of the stages, with the tree as it was (`GivesUp`);
* it breaks off with the file open, because there are no bytes for the text or because the last
  message cannot be shown (`BreaksOff`). The file has then been changed.

The third way is why a run is not all or nothing on every host. The last message is markup, and
the output path stands in it as it is. Nothing of the kind can happen if the output path is plain
and the text whole, on a host that does what is relied on.
-/

namespace Typings

open Schema (Record)

/-! ## Plain texts -/

namespace Host

theorem isWhole_append {a b : String} : IsWhole (a ++ b) ↔ IsWhole a ∧ IsWhole b := by
  simp [IsWhole, String.toList_append, not_or]

theorem isPlain_append {a b : String} : IsPlain (a ++ b) ↔ IsPlain a ∧ IsPlain b := by
  simp only [IsPlain, isWhole_append, String.toList_append, List.mem_append, not_or]
  tauto

theorem isWhole_intercalate {sep : String} (hsep : IsWhole sep) {ss : List String}
    (hss : ∀ s ∈ ss, IsWhole s) : IsWhole (sep.intercalate ss) := by
  induction ss with
  | nil =>
    rw [String.intercalate_nil]
    decide
  | cons s ss ih =>
    obtain ⟨hs, hss⟩ := List.forall_mem_cons.mp hss
    by_cases hnil : ss = []
    · subst hnil
      rwa [String.intercalate_singleton]
    · rw [String.intercalate_cons_of_ne_nil hnil]
      exact isWhole_append.mpr ⟨isWhole_append.mpr ⟨hs, hsep⟩, ih hss⟩

/-- Numbers are plain. -/
theorem isPlain_toString (n : Nat) : IsPlain (toString n) := by
  have hdigit : ∀ c ∈ (toString n).toList, c.isDigit = true := fun c hc =>
    Nat.isDigit_of_mem_toDigits (b := 10) (n := n) (by decide) (by decide) (by simpa using hc)
  exact ⟨fun hmem => absurd (hdigit _ hmem) (by decide),
    fun hmem => absurd (hdigit _ hmem) (by decide)⟩

end Host

variable {h : Host} {t t' : FileTree} {c : Config} {f : Fault} {paths : List Path} {s : String}

namespace Generator

variable {d : Draft} {p q : Path}

/-! ## Stages -/

/-- **Reading order**: the files of the schema directory come first, then those of the browser
directory. -/
theorem sources_eq_ok : (sources h t c).result = .ok paths ↔
    (h.out (SchemaFile.searching c.schemaDirectory) = .ok () ∧
      h.out (SchemaFile.searching c.browserDirectory) = .ok ()) ∧
    ∃ first second, SchemaFile.Lists t c.schemaDirectory first ∧
      SchemaFile.Lists t c.browserDirectory second ∧ paths = first ++ second := by
  simp only [sources, Outcome.bind_result_eq_ok, Outcome.pure_result_eq_ok,
    SchemaFile.find_eq_ok]
  constructor
  · rintro ⟨first, ⟨htold, hfirst⟩, second, ⟨htold', hsecond⟩, heq⟩
    exact ⟨⟨htold, htold'⟩, first, second, hfirst, hsecond, heq.symm⟩
  · rintro ⟨⟨htold, htold'⟩, first, second, hfirst, hsecond, heq⟩
    exact ⟨first, ⟨htold, hfirst⟩, second, ⟨htold', hsecond⟩, heq.symm⟩

theorem tellIgnored_eq_ok {u : Unit} :
    tellIgnored h c = .ok u ↔ (c.ignoreList ≠ [] → h.out (ignoring c) = .ok ()) := by
  unfold tellIgnored
  split
  case isTrue hnone => simp [hnone, pure, Except.pure]
  case isFalse hsome => simp [hsome, Host.say_eq_ok]

theorem tellIgnored_eq_error : tellIgnored h c = .error f ↔ c.ignoreList ≠ [] ∧
    ∃ problem, h.out (ignoring c) = .error problem ∧ f = .unprintable problem := by
  unfold tellIgnored
  split
  case isTrue hnone => simp [hnone, pure, Except.pure]
  case isFalse hsome => simp [hsome, Host.say_eq_error]

/-- A draft is written from the table that all records make. -/
theorem draft_eq_ok : (draft h t c).result = .ok d ↔
    ∃ paths rs table s, (sources h t c).result = .ok paths ∧
      SchemaFile.readAll h t paths = .ok rs ∧
      (c.ignoreList ≠ [] → h.out (ignoring c) = .ok ()) ∧
      Table.build rs (.listed c.ignoreList) = .ok table ∧
      (Declaration.fileText table c.rootNamespace c.globalAlias).result = .ok s ∧
      d = ⟨table.records.length, s⟩ := by
  simp only [draft, Outcome.bind_result_eq_ok, Outcome.lift_result, tellIgnored_eq_ok,
    Outcome.pure_result_eq_ok, exists_const]
  constructor
  · rintro ⟨paths, hpaths, rs, hrs, htold, table, htable, s, hs, hd⟩
    exact ⟨paths, rs, table, s, hpaths, hrs, htold, htable, hs, hd.symm⟩
  · rintro ⟨paths, rs, table, s, hpaths, hrs, htold, htable, hs, hd⟩
    exact ⟨paths, hpaths, rs, hrs, htold, table, htable, s, hs, hd.symm⟩

/-- The first stage of a run that fails, and its fault. -/
inductive Fails (h : Host) (t : FileTree) (c : Config) : Fault → Prop
  | finding {f : Fault} (hpaths : (sources h t c).result = .error f) : Fails h t c f
  | reading {f : Fault} {paths : List Path} (hpaths : (sources h t c).result = .ok paths)
      (hfault : SchemaFile.FirstFault h t paths f) : Fails h t c f
  | telling {problem : ConsoleProblem} {paths : List Path} {rs : List Record}
      (hpaths : (sources h t c).result = .ok paths) (hrs : SchemaFile.readAll h t paths = .ok rs)
      (hsome : c.ignoreList ≠ []) (hproblem : h.out (ignoring c) = .error problem) :
      Fails h t c (.unprintable problem)
  | merging {f : Fault} {paths : List Path} {rs : List Record}
      (hpaths : (sources h t c).result = .ok paths) (hrs : SchemaFile.readAll h t paths = .ok rs)
      (htold : c.ignoreList ≠ [] → h.out (ignoring c) = .ok ())
      (htable : Table.build rs (.listed c.ignoreList) = .error f) : Fails h t c f
  | declaring {f : Fault} {paths : List Path} {rs : List Record} {table : Table}
      (hpaths : (sources h t c).result = .ok paths) (hrs : SchemaFile.readAll h t paths = .ok rs)
      (htold : c.ignoreList ≠ [] → h.out (ignoring c) = .ok ())
      (htable : Table.build rs (.listed c.ignoreList) = .ok table)
      (htext : (Declaration.fileText table c.rootNamespace c.globalAlias).result = .error f) :
      Fails h t c f
  | opening {f : Fault} {d : Draft} (hd : (draft h t c).result = .ok d)
      (hopen : t.locateToOpen c.outputPath = .error f ∨ ∃ place problem,
        t.locateToOpen c.outputPath = .ok place ∧ t.writeProblem? place = some problem ∧
          f = .inaccessible problem c.outputPath.toString) : Fails h t c f

/-- **A run without a draft failed at one of the first five stages.** -/
theorem fails_of_draft (hdraft : (draft h t c).result = .error f) : Fails h t c f := by
  simp only [draft, Outcome.bind_result_eq_error, Outcome.lift_result, tellIgnored_eq_ok,
    tellIgnored_eq_error] at hdraft
  rcases hdraft with hpaths | ⟨paths, hpaths, hrs | ⟨rs, hrs, ⟨hsome, problem, hproblem, rfl⟩ |
    ⟨-, htold, htable | ⟨table, htable, htext | ⟨s, hs, hpure⟩⟩⟩⟩⟩
  · exact .finding hpaths
  · exact .reading hpaths (SchemaFile.readAll_eq_error.mp hrs)
  · exact .telling hpaths hrs hsome hproblem
  · exact .merging hpaths hrs htold htable
  · exact .declaring hpaths hrs htold htable htext
  · cases hpure

/-- The first file that cannot be read keeps a run from making a draft. -/
theorem draft_of_firstFault (hpaths : (sources h t c).result = .ok paths)
    (hfault : SchemaFile.FirstFault h t paths f) : (draft h t c).result = .error f := by
  simp only [draft, Outcome.bind_result_eq_error, Outcome.lift_result]
  exact .inr ⟨paths, hpaths, .inl (SchemaFile.readAll_eq_error.mpr hfault)⟩

/-! ## Saving -/

theorem conclude_eq_ok : conclude h d p = .ok q ↔
    (h.encodes d.text = true ∧ h.out (wrote d.namespaces p) = .ok ()) ∧ q = p := by
  unfold conclude
  cases h.encodes d.text with
  | false => simp [throw, throwThe, MonadExceptOf.throw, bind, Except.bind]
  | true => simp [Fault.bind_eq_ok, Host.say_eq_ok, pure, Except.pure, eq_comm (a := p)]

/-- Two things can go wrong once the file is open. -/
theorem conclude_eq_error : conclude h d p = .error f ↔
    (h.encodes d.text = false ∧ f = .unencodable) ∨
    (h.encodes d.text = true ∧
      ∃ problem, h.out (wrote d.namespaces p) = .error problem ∧ f = .unprintable problem) := by
  unfold conclude
  cases h.encodes d.text with
  | false => simp [throw, throwThe, MonadExceptOf.throw, bind, Except.bind, eq_comm]
  | true => simp [Fault.bind_eq_error, Host.say_eq_error, pure, Except.pure]

theorem generate_of_draft_error (hdraft : (draft h t c).result = .error f) :
    generate h t c = ⟨(draft h t c).warnings, t, .error f⟩ := by
  unfold generate
  rcases hd : draft h t c with ⟨warnings, result⟩
  rw [hd] at hdraft
  obtain rfl : result = .error f := hdraft
  rfl

theorem generate_of_draft_ok (hdraft : (draft h t c).result = .ok d) : generate h t c =
    match t.write c.outputPath (savedBytes h d) with
    | .error f => ⟨(draft h t c).warnings, t, .error f⟩
    | .ok tree => ⟨(draft h t c).warnings, tree, conclude h d c.outputPath⟩ := by
  unfold generate
  rcases hd : draft h t c with ⟨warnings, result⟩
  rw [hd] at hdraft
  obtain rfl : result = .ok d := hdraft
  rfl

/-- **How a run goes**: it fails at some stage and leaves the tree alone, or it opens its file,
puts bytes into it and ends as `conclude` says. -/
theorem generate_cases (h : Host) (t : FileTree) (c : Config) :
    (∃ f, Fails h t c f ∧ generate h t c = ⟨(draft h t c).warnings, t, .error f⟩) ∨
    ∃ d t', (draft h t c).result = .ok d ∧ t.write c.outputPath (savedBytes h d) = .ok t' ∧
      generate h t c = ⟨(draft h t c).warnings, t', conclude h d c.outputPath⟩ := by
  cases hdraft : (draft h t c).result with
  | error f => exact .inl ⟨f, fails_of_draft hdraft, generate_of_draft_error hdraft⟩
  | ok d =>
    have hgenerate := generate_of_draft_ok hdraft
    cases hwrite : t.write c.outputPath (savedBytes h d) with
    | error f =>
      -- a draft that cannot be written fails while its file is opened
      rw [hwrite] at hgenerate
      exact .inl ⟨f, .opening hdraft (FileTree.write_eq_error.mp hwrite), hgenerate⟩
    | ok t' =>
      rw [hwrite] at hgenerate
      exact .inr ⟨d, t', rfl, hwrite, hgenerate⟩

/-- A run succeeds exactly if it makes a draft, writes it, and tells the user so. -/
theorem generate_eq_ok : (generate h t c).result = .ok p ∧ (generate h t c).tree = t' ↔
    p = c.outputPath ∧ ∃ d, (draft h t c).result = .ok d ∧
      (h.encodes d.text = true ∧ h.out (wrote d.namespaces c.outputPath) = .ok ()) ∧
      t.write c.outputPath (Text.Utf8.encode d.text.toList) = .ok t' := by
  constructor
  · rintro ⟨hresult, htree⟩
    -- a run that fails early does not succeed, so the file was opened
    rcases generate_cases h t c with ⟨f, -, heq⟩ | ⟨d, u, hdraft, hwrite, heq⟩
    · rw [heq] at hresult
      cases hresult
    · rw [heq] at hresult htree
      obtain ⟨htold, hp⟩ := conclude_eq_ok.mp hresult
      obtain rfl : u = t' := htree
      rw [savedBytes, if_pos htold.1] at hwrite
      exact ⟨hp, d, hdraft, htold, hwrite⟩
  · rintro ⟨rfl, d, hdraft, htold, hwrite⟩
    have hsaved : savedBytes h d = Text.Utf8.encode d.text.toList := by
      rw [savedBytes, if_pos htold.1]
    rw [generate_of_draft_ok hdraft, hsaved, hwrite]
    exact ⟨conclude_eq_ok.mpr ⟨htold, rfl⟩, rfl⟩

end Generator

namespace CommandLine

open Generator (Draft Fails conclude draft generate savedBytes wrote)

variable {d : Draft}

/-! ## The three ways a run can end -/

/-- A run has written the text `s`: the file that the output path leads to now holds it, and
nothing else differs between `t` and `t'`. -/
structure Writes (h : Host) (t : FileTree) (c : Config) (s : String) (t' : FileTree) : Prop where
  draft : ∃ d, (draft h t c).result = .ok d ∧ d.text = s
  result : (generate h t c).result = .ok c.outputPath
  changed : ∃ place, t.locateToOpen c.outputPath = .ok place ∧
    t.DiffersAt t' place (Text.Utf8.encode s.toList)
  content : t'.Holds c.outputPath (Text.Utf8.encode s.toList)
  decoded : Text.Utf8.decode (Text.Utf8.encode s.toList) = .ok s.toList
  effect : execute h t c =
    { ending := .exit 0 "", warnings := (Generator.draft h t c).warnings, tree := t' }

/-- A run has given up: some stage failed, and the tree is as it was. -/
structure GivesUp (h : Host) (t : FileTree) (c : Config) (f : Fault) : Prop where
  stage : Fails h t c f
  result : (generate h t c).result = .error f
  effect : execute h t c =
    { ending := report h f, warnings := (draft h t c).warnings, tree := t }

/-- A run has broken off with the file open. The file that the output path leads to is empty or
complete, depending on what went wrong. -/
structure BreaksOff (h : Host) (t : FileTree) (c : Config) (f : Fault) (d : Draft)
    (t' : FileTree) : Prop where
  draft : (draft h t c).result = .ok d
  cause : (h.encodes d.text = false ∧ f = .unencodable) ∨
    (h.encodes d.text = true ∧
      ∃ problem, h.out (wrote d.namespaces c.outputPath) = .error problem ∧
        f = .unprintable problem)
  result : (generate h t c).result = .error f
  changed : ∃ place, t.locateToOpen c.outputPath = .ok place ∧
    t.DiffersAt t' place (savedBytes h d)
  effect : execute h t c =
    { ending := report h f, warnings := (Generator.draft h t c).warnings, tree := t' }

theorem givesUp_of_generate (hstage : Fails h t c f)
    (heq : generate h t c = ⟨(draft h t c).warnings, t, .error f⟩) : GivesUp h t c f where
  stage := hstage
  result := by rw [heq]
  effect := by rw [execute, heq]; rfl

/-- What a file was opened for and what came of it. -/
theorem writes_or_breaksOff (hdraft : (draft h t c).result = .ok d)
    (hwrite : t.write c.outputPath (savedBytes h d) = .ok t') :
    (Writes h t c d.text t' ∧ h.encodes d.text = true ∧
      h.out (wrote d.namespaces c.outputPath) = .ok ()) ∨
      ∃ f, BreaksOff h t c f d t' := by
  have heq : generate h t c = ⟨(draft h t c).warnings, t', conclude h d c.outputPath⟩ := by
    rw [Generator.generate_of_draft_ok hdraft, hwrite]
  obtain ⟨place, hplace, -, -⟩ := FileTree.write_eq_ok.mp hwrite
  have hdiffers := FileTree.differsAt_of_write hwrite hplace
  -- the file is open by now, so whatever happens next the tree has changed
  cases hconclude : conclude h d c.outputPath with
  | ok p =>
    obtain ⟨htold, rfl⟩ := Generator.conclude_eq_ok.mp hconclude
    have hsaved : savedBytes h d = Text.Utf8.encode d.text.toList := by
      rw [savedBytes, if_pos htold.1]
    rw [hsaved] at hdiffers hwrite
    exact .inl ⟨{
      draft := ⟨d, hdraft, rfl⟩
      result := by rw [heq, hconclude]
      changed := ⟨place, hplace, hdiffers⟩
      content := FileTree.holds_write hwrite
      decoded := Text.Utf8.decode_encode d.text.toList
      effect := by rw [execute, heq, hconclude]; rfl }, htold⟩
  | error f =>
    exact .inr ⟨f, {
      draft := hdraft
      cause := Generator.conclude_eq_error.mp hconclude
      result := by rw [heq, hconclude]
      changed := ⟨place, hplace, hdiffers⟩
      effect := by rw [execute, heq, hconclude]; rfl }⟩

/-- **A run writes, gives up or breaks off.** -/
theorem execute_cases (h : Host) (t : FileTree) (c : Config) :
    (∃ s t', Writes h t c s t') ∨ (∃ f, GivesUp h t c f) ∨ ∃ f d t', BreaksOff h t c f d t' := by
  rcases Generator.generate_cases h t c with ⟨f, hstage, heq⟩ | ⟨d, t', hdraft, hwrite, -⟩
  · exact .inr (.inl ⟨f, givesUp_of_generate hstage heq⟩)
  · rcases writes_or_breaksOff hdraft hwrite with ⟨hwrites, -⟩ | ⟨f, hbreaks⟩
    · exact .inl ⟨_, t', hwrites⟩
    · exact .inr (.inr ⟨f, d, t', hbreaks⟩)

/-! ## All or nothing -/

/-- A run writes its text and changes nothing else, or it fails and changes nothing. -/
def AllOrNothing (h : Host) (t : FileTree) (c : Config) : Prop :=
  (∃ s t', Writes h t c s t') ∨
    ∃ f, (generate h t c).result = .error f ∧ (execute h t c).tree = t

/-- **A run is all or nothing unless it breaks off and that makes a difference.** -/
theorem allOrNothing_iff : AllOrNothing h t c ↔
    ∀ d t', (draft h t c).result = .ok d →
      t.write c.outputPath (savedBytes h d) = .ok t' →
        (h.encodes d.text = true ∧ h.out (wrote d.namespaces c.outputPath) = .ok ()) ∨ t' = t := by
  constructor
  · intro hall d t' hdraft hwrite
    rcases writes_or_breaksOff hdraft hwrite with ⟨-, htold⟩ | ⟨f, hbreaks⟩
    · exact .inl htold
    · rcases hall with ⟨s, u, hwrites⟩ | ⟨g, -, htree⟩
      · cases hwrites.result.symm.trans hbreaks.result
      · rw [hbreaks.effect] at htree
        exact .inr htree
  · intro hsafe
    rcases Generator.generate_cases h t c with ⟨f, hstage, heq⟩ | ⟨d, t', hdraft, hwrite, -⟩
    · have hgives := givesUp_of_generate hstage heq
      exact .inr ⟨f, hgives.result, by rw [hgives.effect]⟩
    · rcases writes_or_breaksOff hdraft hwrite with ⟨hwrites, -⟩ | ⟨f, hbreaks⟩
      · exact .inl ⟨_, t', hwrites⟩
      · -- what broke the run off is none of the two things that were excluded, so `t' = t`
        refine .inr ⟨f, hbreaks.result, ?_⟩
        rw [hbreaks.effect]
        rcases hsafe d t' hdraft hwrite with ⟨hencodes, htold⟩ | hsame
        · rcases hbreaks.cause with ⟨hnone, -⟩ | ⟨-, problem, hproblem, -⟩
          · exact absurd (hencodes.symm.trans hnone) (by simp)
          · cases htold.symm.trans hproblem
        · exact hsame

/-- The last message is shown if the output path is plain. -/
theorem told_of_isPlain (hlawful : h.IsLawful) (hpath : Host.IsPlain c.outputPath.toString)
    (n : Nat) : h.out (wrote n c.outputPath) = .ok () := by
  refine hlawful.titled _ ?_
  simp only [Host.isPlain_append]
  exact ⟨⟨⟨by decide, Host.isPlain_toString _⟩, by decide⟩, hpath⟩

/-- A fault never ends a run with exit code 0. -/
theorem report_ne_exit_zero (h : Host) (f : Fault) (errors : String) :
    report h f ≠ .exit 0 errors := by
  unfold report
  split
  · simp
  · split <;> simp

/-- The exit code is 0 exactly if the file was written. -/
theorem exit_zero_iff : (∃ errors, (execute h t c).ending = .exit 0 errors) ↔
    ∃ s t', Writes h t c s t' := by
  constructor
  · rintro ⟨errors, hending⟩
    rcases execute_cases h t c with hwrites | ⟨f, hgives⟩ | ⟨f, d, t', hbreaks⟩
    · exact hwrites
    · rw [hgives.effect] at hending
      exact absurd hending (report_ne_exit_zero h f errors)
    · rw [hbreaks.effect] at hending
      exact absurd hending (report_ne_exit_zero h f errors)
  · rintro ⟨s, t', hwrites⟩
    exact ⟨"", by rw [hwrites.effect]⟩

/-- **The first bad file ends a run**, whatever lies behind it. -/
theorem givesUp_of_firstFault (hpaths : (Generator.sources h t c).result = .ok paths)
    (hfault : SchemaFile.FirstFault h t paths f) : GivesUp h t c f :=
  givesUp_of_generate (.reading hpaths hfault)
    (Generator.generate_of_draft_error (Generator.draft_of_firstFault hpaths hfault))

/--
**When a run is all or nothing.**

A run writes its text to the output path and changes nothing else, or it gives up at some stage
and changes nothing, or it breaks off with the file open. So it is all or nothing exactly if a
draft that can be written has bytes and can be told of, or is what the file held before. That is
so on a lawful host, if the output path is plain and the text whole.

The exit code is 0 exactly if the file was written. If a file cannot be read, the first one in
reading order decides what the fault is, and it is named where a document is refused.
-/
theorem execute_all_or_nothing_iff (h : Host) (t : FileTree) (c : Config) :
    ((∃ s t', Writes h t c s t') ∨ (∃ f, GivesUp h t c f) ∨ ∃ f d t', BreaksOff h t c f d t') ∧
    (AllOrNothing h t c ↔ ∀ d t', (draft h t c).result = .ok d →
      t.write c.outputPath (savedBytes h d) = .ok t' →
        (h.encodes d.text = true ∧ h.out (wrote d.namespaces c.outputPath) = .ok ()) ∨ t' = t) ∧
    (h.IsLawful → Host.IsPlain c.outputPath.toString →
      (∀ d, (draft h t c).result = .ok d → Host.IsWhole d.text) → AllOrNothing h t c) ∧
    ((∃ errors, (execute h t c).ending = .exit 0 errors) ↔ ∃ s t', Writes h t c s t') ∧
    ∀ paths, (Generator.sources h t c).result = .ok paths →
      (∃ first second, SchemaFile.Lists t c.schemaDirectory first ∧
        SchemaFile.Lists t c.browserDirectory second ∧ paths = first ++ second) ∧
      ∀ before p after f, paths = before ++ p :: after →
        (∀ q ∈ before, ∃ rs, SchemaFile.read h t q = .ok rs) →
        SchemaFile.read h t p = .error f →
        GivesUp h t c f ∧ ∀ file problem, f = .refused file problem → file = some p.toString := by
  refine ⟨execute_cases h t c, allOrNothing_iff, fun hlawful hpath hwhole => ?_, exit_zero_iff,
    fun paths hpaths => ⟨(Generator.sources_eq_ok.mp hpaths).2, ?_⟩⟩
  -- whole texts have bytes, and plain paths can be told of
  · exact allOrNothing_iff.mpr fun d t' hdraft _ =>
      .inl ⟨hlawful.encodes _ (hwhole d hdraft), told_of_isPlain hlawful hpath _⟩
  · rintro before p after f rfl hbefore hp
    refine ⟨givesUp_of_firstFault hpaths ⟨before, p, after, rfl, hbefore, hp⟩, ?_⟩
    rintro file problem rfl
    exact SchemaFile.file_of_read_refused hp

/-- A tree with one directory and nothing in it. -/
def vacant (directory : String) : FileTree where
  files := []
  directories := [⟨.here, [directory]⟩]

/-- There are no schema directories, so only the header of the declaration file is written. -/
def headerOnly (directory name : String) : Config where
  schemaDirectory := ⟨.here, ["in"]⟩
  browserDirectory := ⟨.here, ["none"]⟩
  outputDirectory := ⟨.here, [directory]⟩
  outputName := name

/-- The header as a draft. -/
def headerDraft : Draft := ⟨0, "\n".intercalate Declaration.header ++ "\n"⟩

/-- Where the user is told of two directories that are not there, the draft is the header. -/
theorem draft_headerOnly {directory name : String}
    (htold : h.out (SchemaFile.searching ⟨.here, ["in"]⟩) = .ok ())
    (htold' : h.out (SchemaFile.searching ⟨.here, ["none"]⟩) = .ok ())
    (habsent : (vacant directory).isDirectory ⟨.here, ["in"]⟩ = .ok false)
    (habsent' : (vacant directory).isDirectory ⟨.here, ["none"]⟩ = .ok false) :
    (draft h (vacant directory) (headerOnly directory name)).result = .ok headerDraft := by
  have hsources : (Generator.sources h (vacant directory) (headerOnly directory name)).result =
      .ok [] :=
    Generator.sources_eq_ok.mpr ⟨⟨htold, htold'⟩, [], [], .missing habsent, .missing habsent', rfl⟩
  exact Generator.draft_eq_ok.mpr ⟨[], [], Table.empty, headerDraft.text, hsources, rfl,
    fun hsome => absurd rfl hsome, rfl, rfl, rfl⟩

/-- A run without schema files writes the header, on the host that takes every message. -/
theorem execute_all_or_nothing_iff_header : Host.verbatim.IsLawful ∧
    AllOrNothing .verbatim (vacant "out") (headerOnly "out" "index.d.ts") := by
  have hdraft : (draft .verbatim (vacant "out") (headerOnly "out" "index.d.ts")).result =
      .ok headerDraft :=
    draft_headerOnly rfl rfl (FileTree.isDirectory_of_locate none rfl rfl rfl)
      (FileTree.isDirectory_of_locate none rfl rfl rfl)
  obtain ⟨-, -, hlawful, -⟩ :=
    execute_all_or_nothing_iff .verbatim (vacant "out") (headerOnly "out" "index.d.ts")
  refine ⟨Host.isLawful_verbatim,
    hlawful Host.isLawful_verbatim (by decide +kernel) fun d hd => ?_⟩
  obtain rfl : d = headerDraft := Except.ok.inj (hd.symm.trans hdraft)
  exact Host.isWhole_append.mpr
    ⟨Host.isWhole_intercalate (by decide) (by decide +kernel), by decide⟩

/-- A message without the mark in front of it, if it has one. -/
def untitled (message : String) : List Char :=
  if Host.title.toList.isPrefixOf message.toList then message.toList.drop Host.title.toList.length
  else message.toList

/-- A host that refuses every bracket but those of the mark. -/
def unbracketed : Host where
  out message := if '[' ∈ untitled message then .error .markup else .ok ()
  err message := .ok (message ++ "\n")
  escape := id
  encodes _ := true

theorem isLawful_unbracketed : unbracketed.IsLawful where
  plain s hplain := by
    refine if_neg fun hmem => hplain.1 ?_
    unfold untitled at hmem
    split at hmem
    · exact List.mem_of_mem_drop hmem
    · exact hmem
  titled s hplain := by
    -- the title is cut off before brackets are looked for, so they would be in what is behind it
    have hprefix : Host.title.toList.isPrefixOf (Host.title ++ s).toList = true := by
      rw [String.toList_append, List.isPrefixOf_iff_prefix]
      exact List.prefix_append _ _
    refine if_neg fun hmem => hplain.1 ?_
    rwa [untitled, if_pos hprefix, String.toList_append, List.drop_left] at hmem
  escaped _ _ _ _ := ⟨_, rfl⟩
  encodes _ _ := rfl

/-- The file is written, and the message that says so has a closing tag in it. -/
theorem not_allOrNothing : ¬ ∀ (h : Host) (t : FileTree) (c : Config), h.IsLawful →
    AllOrNothing h t c := by
  intro hall
  have hdraft : (draft unbracketed (vacant "out[") (headerOnly "out[" "x].d.ts")).result =
      .ok headerDraft :=
    draft_headerOnly (by decide +kernel) (by decide +kernel)
      (FileTree.isDirectory_of_locate none rfl rfl rfl)
      (FileTree.isDirectory_of_locate none rfl rfl rfl)
  have hpath : (headerOnly "out[" "x].d.ts").outputPath = ⟨.here, ["out[", "x].d.ts"]⟩ := by
    decide +kernel
  -- nothing is in the way of the file, so it is written
  have hplace : (vacant "out[").locateToOpen (headerOnly "out[" "x].d.ts").outputPath =
      .ok ⟨.here, ["out[", "x].d.ts"]⟩ := by
    rw [hpath]
    exact FileTree.locateToOpen_eq_ok.mpr ⟨rfl, rfl⟩
  have hwrite : (vacant "out[").write (headerOnly "out[" "x].d.ts").outputPath
      (savedBytes unbracketed headerDraft) = .ok _ :=
    FileTree.write_eq_ok.mpr ⟨_, hplace, rfl, rfl⟩
  rcases allOrNothing_iff.mp (hall unbracketed (vacant "out[") (headerOnly "out[" "x].d.ts")
    isLawful_unbracketed) headerDraft _ hdraft hwrite with ⟨-, htold⟩ | hsame
  -- but it cannot be told of, and the tree has one more file
  · exact absurd htold (by decide +kernel)
  · simpa [vacant, FileTree.withFile, Keyed.put] using congrArg FileTree.files hsame

end CommandLine

end Typings
