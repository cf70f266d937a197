import Typings.Proofs.CanonicalNodes
import Typings.Proofs.DroppedNamespaces
import Typings.Proofs.MergeContents
import Typings.Proofs.MergeableRecords
import Typings.Proofs.WrittenTypes

/-!
# What merging takes for duplicates

Functions of one namespace are told apart by their names, their conventions and their
parameters, and of those that are the same in all three only the newest is kept. So callers
find every function again, with the same parameters in every overload, provided that
functions that are taken for duplicates write the same constants.

They need not. A key holds what a constant stands for, and `1` and `true` stand for the same,
but they are written differently. Then the overloads of all but the newest function are lost.
-/

namespace Typings

open Schema (Callable Parameter Record Typed)

namespace Schema

/-- The constants among the types of a function's parameters, in order. -/
def Callable.constants (c : Callable) : List Scalar :=
  Schema.constants (Parameter.nodesList c.parameters)

/-- **Well typed functions with one key and the same constants have the same parameters.** -/
theorem Callable.eq_of_functionKey {f g : Callable} (hf : f.isTyped = true) (hg : g.isTyped = true)
    (hfnodes : Typed f.nodes) (hgnodes : Typed g.nodes) (hkey : g.functionKey = f.functionKey)
    (hconstants : g.constants = f.constants) :
    g.name = f.name ∧ g.async = f.async ∧ g.parameters = f.parameters := by
  obtain ⟨name, async, description, ps, r, deprecated, unsupported⟩ := f
  obtain ⟨name', async', description', qs, u, deprecated', unsupported'⟩ := g
  rw [Callable.nodes] at hfnodes hgnodes
  simp only [isTyped, Bool.and_eq_true] at hf hg
  obtain ⟨⟨⟨⟨hname, hasync⟩, -⟩, -⟩, hps⟩ := hf
  obtain ⟨⟨⟨⟨hname', hasync'⟩, -⟩, -⟩, hqs⟩ := hg
  rw [functionKey, functionKey, FunctionKey.mk.injEq] at hkey
  -- name and convention are texts or truth values, and the parameters are typed with the same
  -- constants, so canonical forms tell them apart
  exact ⟨Json.eq_of_canonical hname' hname hkey.1, Json.eq_of_canonical hasync' hasync hkey.2.1,
    Parameter.eq_of_canonicalList qs ps hqs hps
      ⟨hgnodes.append.1, hfnodes.append.1, hconstants⟩ hkey.2.2⟩

/-- What records of one namespace say together has a function of every key that one of them
has, and no function that none of them has. -/
theorem Record.exists_of_mem_functions {rs : List Record} {m r : Record} {f : Callable}
    (h : mergeAll rs = some m) (hr : r ∈ rs) (hf : f ∈ r.functions) :
    ∃ g ∈ m.functions, g.functionKey = f.functionKey ∧ ∃ s ∈ rs, g ∈ s.functions := by
  have hdistinct := (says_mergeAll h).functions []
  rw [List.nil_append, List.nil_append] at hdistinct
  have hmem : f ∈ rs.reverse.flatMap Record.functions :=
    List.mem_flatMap.mpr ⟨r, List.mem_reverse.mpr hr, hf⟩
  -- the function may go, but its key stays
  have hkey : f.functionKey ∈ (Keyed.distinct (fun c => some c.functionKey)
      (rs.reverse.flatMap Record.functions)).filterMap fun c => some c.functionKey :=
    Keyed.mem_keys_distinct.mpr (List.mem_filterMap.mpr ⟨f, hmem, rfl⟩)
  obtain ⟨g, hg, hgkey⟩ := List.mem_filterMap.mp hkey
  obtain ⟨s, hs, hgs⟩ := List.mem_flatMap.mp (Keyed.mem_of_mem_distinct hg)
  exact ⟨g, Keyed.mem_of_mem_distinct (hdistinct ▸ hg), Option.some.inj hgkey, s,
    List.mem_reverse.mp hs, hgs⟩

end Schema

/-! ## Tables -/

namespace Table

/-- **What a table that is built has under the name of a namespace that is kept**: what the
records of this namespace say together, without the functions that cannot be declared. -/
theorem build_get? {rs : List Record} (hkeys : ∀ r ∈ rs, r.hasKeys = true) (ignored : Ignored) :
    ∃ t, build rs ignored = .ok t ∧ ∀ name, ignored.covers name = false →
      t.get? name = (Record.mergeAll (group name rs)).map fun r =>
        { r with functions := r.functions.filter fun c => !isNamed undeclarable c } := by
  obtain ⟨t, ht, hrep⟩ := represents_ofRecords hkeys
  refine ⟨(t.removeFunctions undeclarable).dropIgnored ignored, ?_, fun name hkept => ?_⟩
  · rw [build, ht]
    rfl
  · rw [get?_dropIgnored hkept, ← hrep.get]
    exact t.get?_map _ _ name

end Table

/-- Functions with the same convention and the same parameters are written with the same
parameters, whatever they return. -/
theorem parameterTexts_congr {f g : Callable} (hf : f.isTyped = true) (hg : g.isTyped = true)
    (hfnodes : Typed f.nodes) (hgnodes : Typed g.nodes) (hasync : g.async = f.async)
    (hparameters : g.parameters = f.parameters) (scope : Scope) :
    ∃ lists, ((g.signature scope).parameterTexts scope.current).result = .ok lists ∧
      ((f.signature scope).parameterTexts scope.current).result = .ok lists := by
  obtain ⟨lists, hlists, hrender⟩ :=
    Signature.parameterTexts_ok (signature_composed hf hfnodes scope) scope.current
  obtain ⟨lists', hlists', hrender'⟩ :=
    Signature.parameterTexts_ok (signature_composed hg hgnodes scope) scope.current
  -- what is written depends on what callers see
  have hvisible : (g.signature scope).visibleInputs = (f.signature scope).visibleInputs := by
    unfold Signature.visibleInputs Callable.signature
    rw [hasync, hparameters]
  rw [hvisible, hrender, Except.ok.injEq] at hrender'
  exact ⟨lists, hrender' ▸ hlists', hlists⟩

/--
**Merging loses no overload, if duplicates have the same constants.**

Take well typed records and a function of one of them whose namespace is kept and which is not
named `delete`. Say that the functions of this namespace with its name, its convention and its
parameters write the same constants in the same places. Then the table that is built has a
function of this name in this namespace whose overloads are written with the same parameters,
in the same order, wherever they are written.
-/
theorem Table.build_keeps_overloads {rs : List Record} {ignored : Ignored} {r : Record}
    {f : Callable} (htyped : ∀ r ∈ rs, r.IsTyped) (hr : r ∈ rs)
    (hkept : ignored.covers r.name = false) (hf : f ∈ r.functions) (hname : f.name ≠ .str "delete")
    (hconstants : ∀ s ∈ rs, s.name = r.name → ∀ g ∈ s.functions,
      g.functionKey = f.functionKey → g.constants = f.constants) :
    ∃ t m g, build rs ignored = .ok t ∧ t.get? r.name = some m ∧ g ∈ m.functions ∧
      g.name = f.name ∧
      ∀ scope : Scope, ∃ lists,
        ((g.signature scope).parameterTexts scope.current).result = .ok lists ∧
        ((f.signature scope).parameterTexts scope.current).result = .ok lists := by
  obtain ⟨t, ht, hget⟩ := build_get? (fun s hs => (htyped s hs).hasKeys) ignored
  have hgroup : r ∈ group r.name rs := mem_group.mpr ⟨hr, rfl⟩
  obtain ⟨m, hm⟩ : ∃ m, Record.mergeAll (group r.name rs) = some m := by
    refine Option.ne_none_iff_exists'.mp fun hnone => ?_
    rw [Record.eq_nil_of_mergeAll hnone] at hgroup
    exact absurd hgroup (by simp)
  -- what is kept in place of `f` comes from a record of the same namespace
  obtain ⟨g, hg, hkey, s, hs, hgs⟩ := Record.exists_of_mem_functions hm hgroup hf
  obtain ⟨hs, hsname⟩ := mem_group.mp hs
  have htypedFunctions : ∀ s ∈ rs, ∀ c ∈ s.functions, c.isTyped = true ∧ Typed c.nodes :=
    fun s hs c hc => ⟨(htyped s hs).callables c (List.mem_append_left _ hc),
      (htyped s hs).nodes.mono fun n hn => by simp [Record.nodes, Callable.nodes_subset hc hn]⟩
  obtain ⟨hftyped, hfnodes⟩ := htypedFunctions r hr f hf
  obtain ⟨hgtyped, hgnodes⟩ := htypedFunctions s hs g hgs
  obtain ⟨hgname, hasync, hparameters⟩ := Schema.Callable.eq_of_functionKey hftyped hgtyped
    hfnodes hgnodes hkey (hconstants s hs hsname g hgs hkey)
  refine ⟨t, _, g, ht, by rw [hget r.name hkept, hm]; rfl, ?_, hgname,
    parameterTexts_congr hftyped hgtyped hfnodes hgnodes hasync hparameters⟩
  exact List.mem_filter.mpr ⟨hg, by rw [isNamed_undeclarable (hgname ▸ hname)]; rfl⟩

/-- A function with a constant among its parameters. -/
def searchFunction (returns : Option Schema.Node) : Callable :=
  ⟨.str "search", .bool true, .null,
    [⟨.str "limit", ⟨{ optional := true }, .constant (.int 1)⟩⟩, ⟨.str "text", ⟨{}, .string none⟩⟩],
    returns, .bool false, false⟩

/-- Two records of one namespace with the same function. The newer one says what it returns. -/
def historyRecords : List Record :=
  [{ name := "history", functions := [searchFunction none] },
   { name := "history", functions := [searchFunction (some ⟨{}, .any⟩)] }]

theorem historyRecords_isTyped : ∀ r ∈ historyRecords, r.IsTyped :=
  List.forall_mem_cons.mpr ⟨⟨by unfold Typed; decide, by decide⟩,
    List.forall_mem_singleton.mpr ⟨by unfold Typed; decide, by decide⟩⟩

theorem Table.build_keeps_overloads_history :
    (∀ r ∈ historyRecords, r.IsTyped) ∧
      { name := "history", functions := [searchFunction none] } ∈ historyRecords ∧
      (Ignored.listed ["tabs"]).covers "history" = false ∧
      (searchFunction none).name ≠ .str "delete" ∧
      (∀ s ∈ historyRecords, s.name = "history" → ∀ g ∈ s.functions,
        g.functionKey = (searchFunction none).functionKey →
        g.constants = (searchFunction none).constants) ∧
      ∃ t m g, build historyRecords (.listed ["tabs"]) = .ok t ∧ t.get? "history" = some m ∧
        g ∈ m.functions ∧ g.name = (searchFunction none).name ∧
        ∀ scope : Scope, ∃ lists,
          ((g.signature scope).parameterTexts scope.current).result = .ok lists ∧
          (((searchFunction none).signature scope).parameterTexts scope.current).result =
            .ok lists := by
  have hconstants : ∀ s ∈ historyRecords, s.name = "history" → ∀ g ∈ s.functions,
      g.functionKey = (searchFunction none).functionKey →
      g.constants = (searchFunction none).constants := by decide +kernel
  exact ⟨historyRecords_isTyped, List.mem_cons_self, by decide, by decide, hconstants,
    build_keeps_overloads historyRecords_isTyped List.mem_cons_self (by decide)
      List.mem_cons_self (by decide) hconstants⟩

/-- A function of one parameter `x`, for which there is one value only. -/
def constantFunction (value : Scalar) : Callable :=
  ⟨.str "f", .bool false, .null, [⟨.str "x", ⟨{}, .constant value⟩⟩], none, .bool false, false⟩

/-- A function for `1`, and a newer one for `true`. -/
def constantRecords : List Record :=
  [{ name := "a", functions := [constantFunction (.int 1)] },
   { name := "a", functions := [constantFunction (.bool true)] }]

theorem constantRecords_isTyped : ∀ r ∈ constantRecords, r.IsTyped :=
  List.forall_mem_cons.mpr ⟨⟨by unfold Typed; decide, by decide⟩,
    List.forall_mem_singleton.mpr ⟨by unfold Typed; decide, by decide⟩⟩

/-- A function is lost if a newer one has a constant that stands for the same value and is
written differently. -/
theorem Table.build_loses_overload :
    ¬ ∀ (rs : List Record) (ignored : Ignored) (r : Record) (f : Callable),
      (∀ r ∈ rs, r.IsTyped) → r ∈ rs → ignored.covers r.name = false → f ∈ r.functions →
      f.name ≠ .str "delete" →
      ∃ t m g, build rs ignored = .ok t ∧ t.get? r.name = some m ∧ g ∈ m.functions ∧
        g.name = f.name ∧
        ∀ scope : Scope, ∃ lists,
          ((g.signature scope).parameterTexts scope.current).result = .ok lists ∧
          ((f.signature scope).parameterTexts scope.current).result = .ok lists := by
  intro h
  obtain ⟨t, m, g, ht, hm, hg, -, htexts⟩ := h constantRecords (.listed [])
    { name := "a", functions := [constantFunction (.int 1)] } (constantFunction (.int 1))
    constantRecords_isTyped List.mem_cons_self (by decide) List.mem_cons_self (by decide)
  -- the newer function takes the place of the older one
  have hbuild : build constantRecords (.listed []) =
      .ok ⟨[{ name := "a", functions := [constantFunction (.bool true)] }], by decide⟩ := by cbv
  obtain rfl := Except.ok.inj (hbuild.symm.trans ht)
  obtain rfl := Option.some.inj hm
  obtain rfl := List.mem_singleton.mp hg
  obtain ⟨lists, hkept, hlost⟩ := htexts ⟨"a", empty⟩
  have hkept' : [["x: true"]] = lists := Except.ok.inj hkept
  have hlost' : [["x: 1"]] = lists := Except.ok.inj hlost
  exact absurd (hkept'.trans hlost'.symm) (by decide)

end Typings
