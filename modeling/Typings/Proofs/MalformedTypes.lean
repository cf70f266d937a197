import Typings.Proofs.FileLayout
import Typings.Schema.OfJson

/-!
# What a malformed type stops

In a legible schema names and references are texts, and what describes something is a text or
left out, but a `type` may be anything. A `type` that means nothing is written as a type about
which nothing is known, so it should stop nothing. It does not, but for one place: among the
parameters of a function, at whatever depth, a `type` that is a list or an object cannot be part
of the key of the function, so records cannot be merged there.

`malformed_stops_merging` says exactly when a legible schema can be written out.
-/

namespace Typings

open DocComment (IsDescription)

namespace Json

/-- Is the value a text, or left out? -/
def isTextOrNull : Json → Bool
  | .null => true
  | .str _ => true
  | _ => false

/-- Does the value say yes or no, or say something? -/
def isNotice : Json → Bool
  | .bool _ => true
  | .str _ => true
  | _ => false

theorem isComposite_of_isTextOrNull {v : Json} (h : v.isTextOrNull = true) :
    v.isComposite = false := by
  rcases v with (_ | _ | _ | _ | _) | _ | _ <;> first | rfl | cases h

theorem isComposite_of_isNotice {v : Json} (h : v.isNotice = true) : v.isComposite = false := by
  rcases v with (_ | _ | _ | _ | _) | _ | _ <;> first | rfl | cases h

theorem isDescription_of_isTextOrNull {v : Json} (h : v.isTextOrNull = true) :
    IsDescription v := by
  intro hset
  rcases v with (_ | _ | _ | _ | s) | _ | _
  case scalar.str => exact ⟨s, rfl⟩
  case scalar.null => cases hset
  all_goals cases h

end Json

namespace Schema

/-- What is asked of a legible schema. Nothing is asked of a `type`. -/
def Allowed.legible : Allowed where
  name := Json.isText
  label := Json.isTextOrNull
  deprecated := Json.isNotice
  async v := !v.isComposite
  reference := Json.isText
  type _ := true

/-- Does the node have a `type` that means nothing and cannot be part of a key? -/
def Node.isMalformed (n : Node) : Bool := match n.shape with
  | .unknown type => type.isComposite
  | _ => false

/-! ## Keys of legible records -/

/-- What a legible schema holds can be part of a key where this is asked of a `type`, too. -/
theorem Allowed.legible_implies_simple :
    { Allowed.legible with type := fun v => !v.isComposite }.Implies .simple := by
  have htext : ∀ {v : Json}, v.isText = true → (!v.isComposite) = true := fun h => by
    rw [Json.isComposite_of_isWord (Json.isWord_of_isText h)]
    rfl
  refine ⟨htext, fun h => ?_, fun h => ?_, id, htext, id⟩
  · show (!_) = true
    rw [Json.isComposite_of_isTextOrNull h]
    rfl
  · show (!_) = true
    rw [Json.isComposite_of_isNotice h]
    rfl

/-- **A legible node can be part of a key unless it is malformed**, by itself. -/
theorem Node.meets_simple_iff {n : Node} (h : n.meets .legible = true) :
    n.meets .simple = true ↔ n.isMalformed = false := by
  obtain ⟨hinfo, hshape⟩ := Bool.and_eq_true_iff.mp h
  obtain ⟨i, s⟩ := n
  constructor
  · intro hsimple
    obtain ⟨-, hsimple⟩ := Bool.and_eq_true_iff.mp hsimple
    cases s with
    | unknown type => simpa [Shape.meets, Allowed.simple, isMalformed] using hsimple
    | _ => rfl
  · intro hwell
    -- all that is asked for is legible already, except of a type that is not known
    refine Node.meets_mono Allowed.legible_implies_simple (Bool.and_eq_true_iff.mpr ⟨hinfo, ?_⟩)
    cases s with
    | unknown type => simpa [Shape.meets, isMalformed] using hwell
    | _ => exact hshape

/-- The nodes of the parameters of a record's function are nodes of the record. -/
theorem Record.nodes_of_parameters {r : Record} {c : Callable} (hc : c ∈ r.functions) {n : Node}
    (hn : n ∈ Parameter.nodesList c.parameters) : n ∈ r.nodes := by
  refine Record.mem_nodes.mpr (.inr (.inl ⟨c, hc, ?_⟩))
  obtain ⟨name, async, description, parameters, returns, deprecated, unsupported⟩ := c
  rw [Callable.nodes]
  exact List.mem_append_left _ hn

/-- **The members of a legible record have keys unless a parameter is malformed.** -/
theorem Record.Meets.hasKeys_iff {r : Record} (h : r.Meets .legible) : r.hasKeys = true ↔
    ∀ c ∈ r.functions, ∀ n ∈ Parameter.nodesList c.parameters, n.isMalformed = false := by
  have hcallables : ∀ c ∈ r.functions ++ r.events, Allowed.simple.name c.name = true ∧
      Allowed.simple.async c.async = true ∧
      c.parameters.all (Parameter.meets .simple) = true := by
    intro c hc
    have hmeets := h.callables c hc
    simp only [Callable.meets, Bool.and_eq_true] at hmeets
    obtain ⟨⟨⟨⟨hname, hasync⟩, -⟩, -⟩, hparameters⟩ := hmeets
    exact ⟨Allowed.legible_implies_simple.name hname, hasync,
      Parameter.meets_mono Allowed.legible_implies_simple hparameters⟩
  have hfunctions : ∀ c ∈ r.functions, c.hasFunctionKey = true ↔
      ∀ n ∈ Parameter.nodesList c.parameters, n.isMalformed = false := by
    intro c hc
    obtain ⟨hname, hasync, hparameters⟩ := hcallables c (List.mem_append_left _ hc)
    have hnodes : ∀ n ∈ Parameter.nodesList c.parameters,
        n.meets .simple = true ↔ n.isMalformed = false :=
      fun n hn => Node.meets_simple_iff (h.nodes n (nodes_of_parameters hc hn))
    rw [Callable.hasFunctionKey_iff]
    constructor
    · rintro ⟨-, -, -, hsimple⟩ n hn
      exact (hnodes n hn).mp (hsimple n hn)
    · intro hwell
      exact ⟨hname, hasync, hparameters, fun n hn => (hnodes n hn).mpr (hwell n hn)⟩
  -- events and types are compared by names, which are simple in a legible record
  have hevents : r.events.all Callable.hasEventKey = true := by
    refine List.all_eq_true.mpr fun e he => ?_
    obtain ⟨hname, hasync, -⟩ := hcallables e (List.mem_append_right _ he)
    exact Bool.and_eq_true_iff.mpr ⟨hname, hasync⟩
  have htypes : r.types.all Node.hasTypeKey = true := by
    refine List.all_eq_true.mpr fun n hn => ?_
    have hmeets := h.nodes n (Record.mem_nodes.mpr (.inl ⟨n, hn, n.self_mem_nodes⟩))
    simp only [Node.meets, Info.meets, Bool.and_eq_true] at hmeets
    obtain ⟨⟨⟨⟨hid, -⟩, -⟩, -⟩, -⟩ := hmeets
    exact Allowed.legible_implies_simple.label hid
  -- so the parameters of functions are all that is left
  unfold hasKeys
  rw [hevents, htypes, Bool.and_true, Bool.and_true, List.all_eq_true]
  exact forall₂_congr fun c hc => hfunctions c hc

/-! ## Writing legible records -/

theorem Callable.isWritable_of_meets {c : Callable} (h : c.meets .legible = true) :
    c.IsWritable fun _ => True := by
  simp only [meets, Bool.and_eq_true] at h
  obtain ⟨⟨⟨⟨hname, -⟩, hdescription⟩, -⟩, hparameters⟩ := h
  refine ⟨⟨hname, trivial⟩, fun p hp => ⟨?_, trivial⟩,
    Json.isDescription_of_isTextOrNull hdescription⟩
  exact Json.isComposite_of_isWord (Json.isWord_of_isText (List.all_eq_true.mp hparameters p hp))

theorem Node.mentions_of_meets {n : Node} (h : n.meets .legible = true) :
    n.shape.Mentions fun _ => True := by
  obtain ⟨-, hshape⟩ := Bool.and_eq_true_iff.mp h
  obtain ⟨i, s⟩ := n
  cases s with
  | reference target => exact ⟨hshape, trivial⟩
  | function parameters returns async =>
    obtain ⟨-, hparameters⟩ := Bool.and_eq_true_iff.mp hshape
    exact fun p hp => ⟨Json.isComposite_of_isWord (Json.isWord_of_isText
      (List.all_eq_true.mp hparameters p hp)), trivial⟩
  | _ => exact trivial

/-- The members of a legible object type are legible. -/
theorem Node.members_meet {n : Node} (h : n.meets .legible = true) :
    ∀ c ∈ n.members, c.meets .legible = true := by
  obtain ⟨-, hshape⟩ := Bool.and_eq_true_iff.mp h
  obtain ⟨i, s⟩ := n
  intro c hc
  cases s with
  | object properties functions events additional =>
    obtain ⟨hfunctions, hevents⟩ := Bool.and_eq_true_iff.mp hshape
    rcases List.mem_append.mp hc with hc | hc
    · exact List.all_eq_true.mp hfunctions c hc
    · exact List.all_eq_true.mp hevents c hc
  | _ => exact absurd hc (by simp [members])

/-- **A legible record can be written**, whatever its types are. -/
theorem Record.Meets.isWritable {r : Record} (h : r.Meets .legible) :
    r.IsWritable fun _ => True := by
  -- the functions and events of the record itself, and those of its object types
  have hcallables : ∀ c ∈ r.callables, c.meets .legible = true := by
    intro c hc
    rcases List.mem_append.mp hc with hc | hc
    · exact h.callables c hc
    · obtain ⟨n, hn, hc⟩ := List.mem_flatMap.mp hc
      exact Node.members_meet (h.nodes n hn) c hc
  have hdescribed : r.IsDescribed := by
    refine ⟨Json.isDescription_of_isTextOrNull h.description, fun n hn => ?_, fun c hc =>
      (Callable.isWritable_of_meets (hcallables c hc)).description⟩
    have hmeets := h.nodes n hn
    simp only [Node.meets, Info.meets, Bool.and_eq_true] at hmeets
    obtain ⟨⟨⟨⟨-, hdescription⟩, -⟩, -⟩, -⟩ := hmeets
    exact Json.isDescription_of_isTextOrNull hdescription
  exact ⟨trivial, hdescribed, fun n hn => Node.mentions_of_meets (h.nodes n hn),
    fun _ _ => trivial, fun c hc => Callable.isWritable_of_meets (hcallables c hc),
    fun _ _ => trivial⟩

end Schema

open Schema (Node Parameter Record)
open Table (Ignored group)

namespace Declaration

/-- **A file can be written of every table that is built from legible records.** -/
theorem exists_fileText_of_build {rs : List Record} (h : ∀ r ∈ rs, r.Meets .legible)
    {ignored : Ignored} {t : Table} (ht : Table.build rs ignored = .ok t) (root : String)
    (globalAlias : Option String) :
    ∃ text, (fileText t root globalAlias).result = .ok text := by
  have hrecords := Table.isWritable_of_build ht fun r hr => (h r hr).isWritable
  obtain ⟨blocks, hblocks, -⟩ := exists_composed_blocks hrecords root trivial
  exact ⟨_, fileText_eq_ok.mpr ⟨blocks, hblocks, rfl⟩⟩

/--
**A malformed type stops nothing but merging.**

Legible records make a table, and a file can be written of it, if no parameter of a function is
malformed in any namespace that several records describe. If one is, the records cannot be
merged, and there is no table.
-/
theorem malformed_stops_merging {rs : List Record} (h : ∀ r ∈ rs, r.Meets .legible)
    (ignored : Ignored) (root : String) (globalAlias : Option String) :
    ((∀ r ∈ rs, 2 ≤ (group r.name rs).length →
        ∀ c ∈ r.functions, ∀ n ∈ Parameter.nodesList c.parameters, n.isMalformed = false) →
      ∃ t text, Table.build rs ignored = .ok t ∧
        (fileText t root globalAlias).result = .ok text) ∧
    ((∃ r ∈ rs, 2 ≤ (group r.name rs).length ∧
        ∃ c ∈ r.functions, ∃ n ∈ Parameter.nodesList c.parameters, n.isMalformed = true) →
      Table.build rs ignored = .error .compositeKey) := by
  constructor
  · intro hwell
    obtain ⟨t, ht⟩ := (Table.exists_build_iff ignored).mpr
      fun r hr hlen => (h r hr).hasKeys_iff.mpr (hwell r hr hlen)
    obtain ⟨text, htext⟩ := exists_fileText_of_build h ht root globalAlias
    exact ⟨t, text, ht, htext⟩
  · rintro ⟨r, hr, hlen, c, hc, n, hn, hmalformed⟩
    -- a table would need keys, and the only fault of a table is a key that is missing
    cases hbuild : Table.build rs ignored with
    | ok t =>
      have hkeys := (Table.exists_build_iff ignored).mp ⟨t, hbuild⟩ r hr hlen
      rw [(h r hr).hasKeys_iff.mp hkeys c hc n hn] at hmalformed
      cases hmalformed
    | error fault => rw [Table.compositeKey_of_build hbuild]

/-- The document of a namespace with a function that takes a parameter of this type. -/
def documentOf (name : String) (type : Json) : Json :=
  .arr [.obj [("namespace", .str name), ("functions", .arr [.obj [("name", .str "f"),
    ("parameters", .arr [.obj [("name", .str "x"), ("type", type)]])]])]]

/-- A type that is a list stands in a namespace that one record describes, and one that is a
text of no meaning in a namespace with two records. -/
def oddRecords : List Record :=
  [{ name := "menus",
     functions := [⟨.str "f", .int 1, .null,
       [⟨.str "x", ⟨{}, .unknown (.arr [.str "string"])⟩⟩], none, .bool false, false⟩] },
   { name := "tabs",
     functions := [⟨.str "g", .null, .null,
       [⟨.str "y", ⟨{}, .unknown (.str "strng")⟩⟩], none, .str "Gone.", false⟩] },
   { name := "tabs", types := [⟨{ id := .str "Tab" }, .unknown (.obj [])⟩] }]

theorem malformed_stops_merging_odd :
    (∀ r ∈ oddRecords, r.Meets .legible) ∧
      (∀ r ∈ oddRecords, 2 ≤ (group r.name oddRecords).length →
        ∀ c ∈ r.functions, ∀ n ∈ Parameter.nodesList c.parameters, n.isMalformed = false) ∧
      ∃ t text, Table.build oddRecords (.listed []) = .ok t ∧
        (fileText t "browser" none).result = .ok text := by
  have hlegible : ∀ r ∈ oddRecords, r.Meets .legible :=
    List.forall_mem_cons.mpr ⟨⟨by decide, by decide, by decide⟩,
      List.forall_mem_cons.mpr ⟨⟨by decide, by decide, by decide⟩,
        List.forall_mem_cons.mpr ⟨⟨by decide, by decide, by decide⟩, by simp⟩⟩⟩
  exact ⟨hlegible, by decide,
    (malformed_stops_merging hlegible (.listed []) "browser" none).1 (by decide)⟩

/-- Two documents of one namespace. A parameter in the first one has a list for a type, which
stops everything. -/
theorem malformed_stops_file :
    ¬ ∀ (documents : List Json) (rss : List (List Record)) (ignored : Ignored) (root : String)
      (globalAlias : Option String),
      documents.mapM Record.listOfJson = .ok rss →
      (∀ r ∈ rss.flatten, r.Meets .legible) →
      ∃ t text, Table.build rss.flatten ignored = .ok t ∧
        (fileText t root globalAlias).result = .ok text := by
  intro h
  have hlegible : ∀ r ∈ [[({
      name := "a",
      functions := [⟨.str "f", .bool false, .null,
        [⟨.str "x", ⟨{}, .unknown (.arr [.str "string"])⟩⟩], none, .bool false, false⟩] } :
          Record)], [{ name := "a" }]].flatten, r.Meets .legible :=
    List.forall_mem_cons.mpr ⟨⟨by decide, by decide, by decide⟩,
      List.forall_mem_cons.mpr ⟨⟨by decide, by decide, by decide⟩, by simp⟩⟩
  -- the two records of `a` have to be merged, and one of them has no keys
  obtain ⟨t, -, ht, -⟩ := h
    [documentOf "a" (.arr [.str "string"]), .arr [.obj [("namespace", .str "a")]]] _ (.listed [])
    "browser" none rfl hlegible
  cases ht

end Declaration

end Typings
