import Typings.Fault
import Typings.Order.Keyed
import Typings.Schema.Key
import Typings.Text.Cut

/-!
# The table of namespaces

Several documents may describe one namespace. Their records are merged pairwise, an earlier one
with a newer one. Each kind of member follows its own rule:

* of equal functions the newest is kept, and newer ones come first;
* of types with one name the oldest is kept, and older ones come first; nameless types
  are all kept;
* newer events come first and replace the older ones with the same key;
* a property keeps its first place and takes its newest value;
* the first description that is set counts.

The table has one record for each namespace, in the order in which the namespaces were first met. It
is built by adding record after record. Afterwards functions that cannot be declared are removed and
ignored namespaces are dropped.

A reference without a namespace points into the current one if that declares the type, and otherwise
into the first namespace of the table that does.
-/

namespace Typings.Schema.Record

/-! ## Merging records -/

/-- Can all members that merging compares be told apart by their keys? -/
def hasKeys (r : Record) : Bool :=
  r.functions.all Callable.hasFunctionKey && r.events.all Callable.hasEventKey &&
    r.types.all Node.hasTypeKey

/-- Functions, newest first, each one once. -/
def mergeFunctions (older newer : List Callable) : List Callable :=
  Keyed.distinct (fun c => some c.functionKey) (newer ++ older)

/-- Types, oldest first, each name once. -/
def mergeTypes (older newer : List Node) : List Node :=
  Keyed.distinct Node.typeKey (older ++ newer)

/-- The newer events, and the older ones that none of them replaces. -/
def mergeEvents (older newer : List Callable) : List Callable :=
  newer ++ older.filter fun e => e.eventKey ∉ newer.map Callable.eventKey

/-- Properties in order of first appearance, with their newest values. -/
def mergeProperties (older newer : List Property) : List Property :=
  Keyed.putAll Property.name older newer

/-- One record that says what two records of the same namespace say. -/
def merge (older newer : Record) : Record where
  name := older.name
  description := if older.description.isSet then older.description else newer.description
  functions := mergeFunctions older.functions newer.functions
  events := mergeEvents older.events newer.events
  types := mergeTypes older.types newer.types
  properties := mergeProperties older.properties newer.properties
  nodup := Keyed.nodup_map_putAll newer.properties older.nodup

/-- Merge two records, if their members have keys. -/
def merge? (older newer : Record) : Except Fault Record :=
  if older.hasKeys && newer.hasKeys then .ok (older.merge newer) else .error .compositeKey

@[simp] theorem name_merge (older newer : Record) : (older.merge newer).name = older.name := rfl

end Typings.Schema.Record

namespace Typings

open Schema (Record)

/-! ## Tables -/

/-- Records of different namespaces, in order. -/
structure Table where
  records : List Record
  nodup : (records.map Record.name).Nodup

namespace Table

/-- The table without namespaces. -/
def empty : Table := ⟨[], by simp⟩

instance : Inhabited Table := ⟨empty⟩

/-- The names of the namespaces. -/
def names (t : Table) : List String := t.records.map Record.name

/-- The record of a namespace. -/
def get? (t : Table) (name : String) : Option Record := Keyed.find? Record.name name t.records

/-- The record of a namespace, which has to be there. -/
def get (t : Table) (name : String) : Except Fault Record :=
  match t.get? name with
  | some r => .ok r
  | none => .error (.unknownNamespace name)

/-- Put a record into the table, in the place of the one of the same namespace. -/
def put (t : Table) (r : Record) : Table :=
  ⟨Keyed.put Record.name r t.records, Keyed.nodup_map_put r t.nodup⟩

/-- After a record is put, it is what its namespace has, and the others are as before. -/
theorem get?_put (t : Table) (r : Record) (name : String) :
    (t.put r).get? name = if r.name = name then some r else t.get? name :=
  Keyed.find?_put Record.name r t.records name

/-- Add what one more record says. -/
def add (t : Table) (r : Record) : Except Fault Table :=
  match t.get? r.name with
  | none => .ok (t.put r)
  | some older => t.put <$> older.merge? r

/-- The table that a list of records makes. -/
def ofRecords (rs : List Record) : Except Fault Table := rs.foldlM add empty

/-- Change every record, but not the namespace it describes. -/
def map (t : Table) (f : Record → Record) (h : ∀ r, (f r).name = r.name) : Table :=
  ⟨t.records.map f, by
    have : (t.records.map f).map Record.name = t.records.map Record.name := by simp [h]
    exact this ▸ t.nodup⟩

/-- Functions that cannot be declared in a namespace. -/
def undeclarable : List String := ["delete"]

/-- Is a function named by one of these texts? -/
def isNamed (names : List String) (c : Schema.Callable) : Bool :=
  match c.name with
  | .str name => names.contains name
  | _ => false

/-- The table without the functions of the given names. -/
def removeFunctions (names : List String) (t : Table) : Table :=
  t.map (fun r => { r with functions := r.functions.filter fun c => !isNamed names c })
    fun _ => rfl

/-- Which namespaces to leave out: those that are listed, or those whose names occur in a
text. -/
inductive Ignored where
  | listed (names : List String)
  | within (text : String)

/-- Is a namespace left out? -/
def Ignored.covers : Ignored → String → Bool
  | .listed names, name => names.contains name
  | .within text, name => Text.mentions name text

/-- The table without the ignored namespaces. References to them stay as they are. -/
def dropIgnored (ignored : Ignored) (t : Table) : Table :=
  ⟨t.records.filter fun r => !ignored.covers r.name,
    t.nodup.sublist (List.filter_sublist.map Record.name)⟩

/-- The table from which declarations are written. -/
def build (rs : List Record) (ignored : Ignored) : Except Fault Table := do
  let t ← ofRecords rs
  return (t.removeFunctions undeclarable).dropIgnored ignored

end Table

/-! ## Which namespace declares a type -/

namespace Schema

/-- The first type of a record with this name. -/
def Record.findType (r : Record) (id : Json) : Option Node :=
  r.types.find? fun n => n.info.id.equals id

/-- Does a record declare a type of this name? -/
def Record.declares (r : Record) (id : Json) : Bool := r.types.any fun n => n.info.id.equals id

end Schema

namespace Table

/-- The namespaces that declare a type of this name, in table order. -/
def declaring (t : Table) (id : Json) : List String :=
  (t.records.filter fun r => r.declares id).map Schema.Record.name

/-- The namespace that a reference from `current` points into. -/
def resolve (t : Table) (current : String) (id : Json) : Option String :=
  let found := t.declaring id
  if found.contains current then some current else found.head?

end Table

end Typings
