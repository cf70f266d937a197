import Typings.Files.Tree
import Typings.Host
import Typings.Schema.OfJson
import Typings.Text.Cut

/-!
# Schema files

Which files of a directory hold schemas, and how one is read: its bytes are decoded, its
comments removed, its JSON read and its records classified. The first step that fails
names the file.

Two kinds of comments are removed that JSON does not know: lines that start with two slashes,
anywhere, and one block in front of the value. The lines go first. A block is removed only if it is
closed.

The user is told of every directory before it is looked at, and of every record after its
file has been classified as a whole. A message that cannot be shown ends the reading too,
although nothing is wrong with the file. Such a fault does not name the file.
-/

namespace Typings.Json

/-! ## Comments -/

/-- Is the whole line a comment? -/
def isCommentLine (line : List Char) : Bool := ['/', '/'].isPrefixOf (Text.trimLeft line)

/-- A text without its comment lines. -/
def dropCommentLines (s : List Char) : List Char :=
  Text.unlines ((Text.lines s).filter fun l => !isCommentLine l)

/-- A text without the comment block that it starts with. -/
def dropLeadingBlock (s : List Char) : List Char :=
  if ['/', '*'].isPrefixOf (Text.trimLeft s) then (Text.after? ['*', '/'] s).getD s else s

/-- A text without its comments. -/
def stripComments (s : List Char) : List Char := dropLeadingBlock (dropCommentLines s)

end Typings.Json

namespace Typings.SchemaFile

open Schema (Record)

/-! ## Directories and files -/

/-- Has a file the ending of schema files, in whatever case? -/
def isSchemaName (name : String) : Bool :=
  (Path.suffix name).toList.map Char.toLower == ".json".toList

/-- What is told of a directory that is about to be looked at. -/
def searching (directory : Path) : String :=
  Host.title ++ ("Reading schema directory: " ++ directory.toString)

/-- Those of some names in a directory that are names of files. A name that cannot be
looked at ends the search. -/
def keepFiles (t : FileTree) (directory : Path) : List String → Except Fault (List String)
  | [] => return []
  | name :: names => do
    let file ← t.isFile (directory.child name)
    let rest ← keepFiles t directory names
    return if file then name :: rest else rest

/-- The schema files directly inside a directory, by name in ascending order. A directory
that is not there is reported and holds no files. -/
def find (h : Host) (t : FileTree) (directory : Path) : Outcome (List Path) := do
  h.say (searching directory)
  if ← t.isDirectory directory then
    let entries ← t.list directory
    let files ← keepFiles t directory entries
    let names := (files.filter isSchemaName).mergeSort fun a b => a ≤ b
    return names.map directory.child
  else
    Outcome.warn (.missingDirectory directory.toString)
    return []

/-- A text with every line end written as a newline. -/
def normalizeNewlines : List Char → List Char
  | '\r' :: '\n' :: s => '\n' :: normalizeNewlines s
  | '\r' :: s => '\n' :: normalizeNewlines s
  | c :: s => c :: normalizeNewlines s
  | [] => []

/-- The records that the bytes of a file hold. -/
def parse (bytes : List UInt8) : Except Fault (List Record) :=
  match Text.Utf8.decode bytes with
  | .error defect => Schema.refuse (.notUtf8 defect)
  | .ok text =>
    match Json.read (Json.stripComments (normalizeNewlines text)) with
    | .error defect => Schema.refuse (.notJson defect)
    | .ok v => Record.listOfJson v

/-- What is told of a record that has been read. -/
def processing (r : Record) : String := "  ...processing namespace: " ++ r.name

/-- Tell of records, one by one. -/
def tell (h : Host) : List Record → Except Fault Unit
  | [] => return ()
  | r :: rs => do
    h.say (processing r)
    tell h rs

/-- The records of the file that a path leads to. -/
def read (h : Host) (t : FileTree) (p : Path) : Except Fault (List Record) := do
  let bytes ← t.read p
  let rs ← (parse bytes).mapError (Fault.inFile p.toString)
  tell h rs
  return rs

/-- The records of several files, in order. The first bad file ends the reading. -/
def readAll (h : Host) (t : FileTree) : List Path → Except Fault (List Record)
  | [] => return []
  | p :: ps => do
    let rs ← read h t p
    let rest ← readAll h t ps
    return rs ++ rest

end Typings.SchemaFile
