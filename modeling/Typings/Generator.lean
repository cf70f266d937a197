import Typings.Declaration.File
import Typings.Files.SchemaFile
import Typings.Text.Cut

/-!
# Generating the declaration file

What a run reads, what it leaves out, and what it writes.

Everything is read and merged before anything is written, because a reference can point
into any namespace. The one file is written last. A run therefore has two parts. The first
makes a draft, which is the text of the file; it looks at the tree and leaves it alone. The
second saves the draft and tells the user so. What the second part leaves behind is a tree
in any case, also where it fails:

* if the file cannot be opened, the tree is as it was;
* the file is emptied as it is opened, and if there are no bytes for the text, the file is
  left empty;
* if the last message cannot be shown, the file has been written nevertheless.
-/

namespace Typings

/-- The configuration of a run. -/
structure Config where
  /-- The directory with the schema files of the application. -/
  schemaDirectory : Path
  /-- The directory with the schema files of the browser, which are read second. -/
  browserDirectory : Path
  /-- The directory that the declaration file is written to. -/
  outputDirectory : Path
  /-- The namespaces to leave out, between commas. -/
  ignoredNamespaces : String := ""
  /-- The global name that all namespaces are declared under. -/
  rootNamespace : String := "browser"
  /-- A second global name for the root, if any. -/
  globalAlias : Option String := some "messenger"
  /-- The name of the declaration file. -/
  outputName : String := "index.d.ts"

namespace Config

/-- The namespaces to leave out. Blanks around a name do not count. -/
def ignoreList (c : Config) : List String :=
  ((Text.cut ',' c.ignoredNamespaces.toList).map Text.trim).filter (· ≠ []) |>.map String.ofList

/-- The declaration file. -/
def outputPath (c : Config) : Path := c.outputDirectory.join (.ofString c.outputName)

end Config

namespace Generator

/-! ## Making a draft -/

/-- A declaration file before it is written. -/
structure Draft where
  /-- The number of namespaces that are declared. -/
  namespaces : Nat
  text : String

/-- The schema files of both directories, in reading order. -/
def sources (h : Host) (t : FileTree) (c : Config) : Outcome (List Path) := do
  let first ← SchemaFile.find h t c.schemaDirectory
  let second ← SchemaFile.find h t c.browserDirectory
  return first ++ second

/-- What is told of the namespaces that are left out. -/
def ignoring (c : Config) : String :=
  Host.title ++ ("Ignoring namespaces: " ++ ", ".intercalate c.ignoreList)

/-- Tell of the namespaces that are left out, if there are any. -/
def tellIgnored (h : Host) (c : Config) : Except Fault Unit :=
  if c.ignoreList = [] then return () else h.say (ignoring c)

/-- The declaration file of what both directories hold. -/
def draft (h : Host) (t : FileTree) (c : Config) : Outcome Draft := do
  let paths ← sources h t c
  let records ← SchemaFile.readAll h t paths
  tellIgnored h c
  let table ← Table.build records (.listed c.ignoreList)
  let text ← Declaration.fileText table c.rootNamespace c.globalAlias
  return ⟨table.records.length, text⟩

/-! ## Saving it -/

/-- What a run leaves behind. -/
structure Run where
  warnings : List Warning
  tree : FileTree
  /-- The path of the file, or the fault that ended the run. -/
  result : Except Fault Path

/-- What is told in the end. -/
def wrote (namespaces : Nat) (p : Path) : String :=
  Host.title ++ ("Wrote " ++ toString namespaces ++ " namespaces to " ++ p.toString)

/-- The bytes that end up in the file. It has been emptied when its text turns out to have
none. -/
def savedBytes (h : Host) (d : Draft) : List UInt8 :=
  if h.encodes d.text then Text.Utf8.encode d.text.toList else []

/-- How a run ends whose file could be opened. -/
def conclude (h : Host) (d : Draft) (p : Path) : Except Fault Path := do
  unless h.encodes d.text do throw .unencodable
  h.say (wrote d.namespaces p)
  return p

/-- Generate the declaration file. -/
def generate (h : Host) (t : FileTree) (c : Config) : Run :=
  match draft h t c with
  | ⟨warnings, .error f⟩ => ⟨warnings, t, .error f⟩
  | ⟨warnings, .ok d⟩ =>
    match t.write c.outputPath (savedBytes h d) with
    | .error f => ⟨warnings, t, .error f⟩
    | .ok tree => ⟨warnings, tree, conclude h d c.outputPath⟩

end Generator

end Typings
