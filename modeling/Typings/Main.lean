import Typings.CommandLine

/-!
# The program

Loads the part of the file system that a run can see, runs, and carries out the effect. The
console is a plain one: errors are shown as they stand, and progress is not shown.

Whatever does not depend on the machine is in the modules before. What is here reads and writes,
once before the run and once behind it.
-/

namespace Typings.Program

/-- The places that have to be directories for a path to lead anywhere. -/
def places (p : Path) : List Path :=
  (List.range (p.parts.length + 1)).map fun n => Path.place ⟨p.anchor, p.parts.take n⟩

/-- The bytes of an entry of a directory that is a file. -/
def loadEntry (entry : IO.FS.DirEntry) : IO (Option (List UInt8)) := do
  try
    if (← entry.path.metadata).type == .file then
      return some (← IO.FS.readBinFile entry.path).toList
    else return none
  catch _ => return none

/-- Add the files directly inside a directory, and the places on the way to it. A directory
that cannot be listed adds nothing. -/
def load (t : FileTree) (directory : Path) : IO FileTree := do
  try
    let mut files := t.files
    for entry in ← (← IO.FS.realPath directory.toString).readDir do
      if let some bytes ← loadEntry entry then
        files := (directory.place.child entry.fileName, bytes) :: files
    return { t with files, directories := places directory ++ t.directories }
  catch _ => return t

/-- The part of the file system that a run can see. -/
def loadAll (config : Config) : IO FileTree := do
  let mut tree : FileTree := { files := [], directories := [] }
  for directory in [config.schemaDirectory, config.browserDirectory, config.outputPath.up,
      config.outputPath] do
    tree ← load tree directory
  return tree

/-- How the program is called. -/
def usage : String := "usage: typings SCHEMAS BROWSER_SCHEMAS OUTPUT [IGNORED]"

/-- The three directories and the namespaces to leave out. -/
def request : List String → Except Nat Config
  | [schema, browser, output] => .ok (config schema browser output "")
  | [schema, browser, output, ignored] => .ok (config schema browser output ignored)
  | _ => .error 2
where
  config (schema browser output ignored : String) : Config :=
    { schemaDirectory := .ofString schema
      browserDirectory := .ofString browser
      outputDirectory := .ofString output
      ignoredNamespaces := ignored }

/-- Write the declaration file if a run changed it. -/
def save (config : Config) (before after : FileTree) : IO Unit := do
  if let .ok bytes := after.read config.outputPath then
    unless (before.read config.outputPath).toOption = some bytes do
      IO.FS.writeBinFile config.outputPath.toString ⟨bytes.toArray⟩

end Typings.Program

open Typings in
def main (args : List String) : IO UInt32 := do
  let tree ← match Program.request args with
    | .ok config => Program.loadAll config
    | .error _ =>
      IO.eprintln Program.usage
      pure { files := [], directories := [] }
  let effect := CommandLine.run .verbatim Program.request tree args
  for w in effect.warnings do
    IO.eprintln ("warning: " ++ w.message)
  if let .ok config := Program.request args then
    Program.save config tree effect.tree
  match effect.ending with
  | .exit code errors =>
    IO.eprint errors
    return UInt32.ofNat code
  | .raised _ =>
    IO.eprintln "a schema holds a value that cannot be used where it stands"
    return 1
