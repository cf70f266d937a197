import Typings.Files.Path
import Typings.Fault
import Typings.Order.Keyed

/-!
# File trees

The part of the file system that the program can see: files with their bytes, and
directories, by their places. A place is a path in which double points occur at most in
front, where they lead up from the working directory. Whatever lies above a file or
directory is a directory too, and so is every place from which paths start.

Operations take paths and find the places themselves. Every part of a path but the last
must be a directory that may be searched, and a double point leads to the one above. A
part of a path is at most 255 bytes long and a whole path at most 4095, in UTF-8. No path
holds a null character.

Some operations only look at a path, and a path that leads nowhere is fine for them. Even
these fail where it is not even known whether the path leads anywhere: if it is too long,
or leads through a directory that may not be searched.

A tree is a value, and an operation that fails gives none. So what a failed write leaves
behind is the tree that it was given.
-/

namespace Typings

/-- What can be permitted. To read a directory is to list it, to write it is to make files
in it, and to search it is to go through it. -/
inductive Access where
  | read | write | search
  deriving DecidableEq, Repr

/-- Files and directories by their places, in any order. -/
structure FileTree where
  files : List (Path × List UInt8)
  directories : List Path
  /-- What is not permitted, and at which places. -/
  forbidden : List (Path × Access) := []

/-- What lies at a place. -/
inductive Entry where
  | file (bytes : List UInt8)
  | directory

/-- Is this a file? -/
def Entry.isFile : Entry → Bool
  | .file _ => true
  | .directory => false

/-- Is this a directory? -/
def Entry.isDirectory (e : Entry) : Bool := !e.isFile

namespace FileTree

/-- Does the place `p` lie at or below the place `d`? -/
def isBelow (d p : Path) : Bool := d.anchor == p.anchor && d.parts.isPrefixOf p.parts

/-- Is a place a directory? -/
def hasDirectory (t : FileTree) (d : Path) : Bool :=
  d.parts.all (· == "..") || t.directories.any (isBelow d) ||
    t.files.any fun f => f.1 != d && isBelow d f.1

/-- What lies at a place. -/
def entry? (t : FileTree) (place : Path) : Option Entry :=
  match Keyed.find? Prod.fst place t.files with
  | some f => some (.file f.2)
  | none => if t.hasDirectory place then some .directory else none

/-- Is an access permitted at a place? -/
def allows (t : FileTree) (access : Access) (place : Path) : Bool :=
  !t.forbidden.contains (place, access)

/-- The greatest number of bytes in a part of a path. -/
def longestPart : Nat := 255

/-- The greatest number of bytes in a whole path. -/
def longestPath : Nat := 4095

/-- Walk from a place along the parts of a path. -/
def walk (t : FileTree) (place : Path) : List String → Except FileProblem Path
  | [] => .ok place
  | part :: parts =>
    match t.entry? place with
    | none => .error .missing
    | some (.file _) => .error .notADirectory
    | some .directory =>
      if !t.allows .search place then .error .permissionDenied
      else if longestPart < part.utf8ByteSize then .error .nameTooLong
      else t.walk (if part = ".." then place.up else place.child part) parts

/-- The place that a path leads to, whether or not anything lies there. -/
def locate (t : FileTree) (p : Path) : Except FileProblem Path :=
  if longestPath < p.toString.utf8ByteSize then .error .nameTooLong
  else t.walk ⟨p.anchor, []⟩ p.parts

/-- A problem with a path as a fault. -/
def inaccessible {α : Type} (p : Path) (problem : FileProblem) : Except Fault α :=
  .error (.inaccessible problem p.toString)

/-! ## Looking -/

/-- What a path leads to. A path that leads nowhere leads to nothing. -/
def look (t : FileTree) (p : Path) : Except Fault (Option Entry) :=
  if p.hasNull then .ok none
  else
    match t.locate p with
    | .ok place => .ok (t.entry? place)
    | .error .missing | .error .notADirectory => .ok none
    | .error problem => inaccessible p problem

/-- Does a path lead to a directory? -/
def isDirectory (t : FileTree) (p : Path) : Except Fault Bool :=
  (fun entry? => entry?.any Entry.isDirectory) <$> t.look p

/-- Does a path lead to a file? -/
def isFile (t : FileTree) (p : Path) : Except Fault Bool :=
  (fun entry? => entry?.any Entry.isFile) <$> t.look p

/-! ## Opening -/

/-- The place of what is about to be opened. -/
def locateToOpen (t : FileTree) (p : Path) : Except Fault Path :=
  if p.hasNull then .error .nullInPath
  else
    match t.locate p with
    | .ok place => .ok place
    | .error problem => inaccessible p problem

/-- The name in the directory `d` that leads to or towards the place `q`, if `q` lies
below `d`. -/
def nameTowards? (d q : Path) : Option String :=
  if isBelow d q then (q.parts.drop d.parts.length).head?.filter (· ≠ "..") else none

/-- The names of what lies directly inside the directory at a place. -/
def names (t : FileTree) (place : Path) : List String :=
  Keyed.distinct some ((t.files.map Prod.fst ++ t.directories).filterMap (nameTowards? place))

/-- The names of what lies directly inside the directory that a path leads to, in no
particular order. -/
def list (t : FileTree) (p : Path) : Except Fault (List String) := do
  let place ← t.locateToOpen p
  match t.entry? place with
  | some .directory =>
    if t.allows .read place then return t.names place else inaccessible p .permissionDenied
  | some (.file _) => inaccessible p .notADirectory
  | none => inaccessible p .missing

/-- The bytes of the file that a path leads to. -/
def read (t : FileTree) (p : Path) : Except Fault (List UInt8) := do
  let place ← t.locateToOpen p
  match t.entry? place with
  | none => inaccessible p .missing
  | some entry =>
    if !t.allows .read place then inaccessible p .permissionDenied
    else
      match entry with
      | .file bytes => return bytes
      | .directory => inaccessible p .isDirectory

/-- What stands against writing a file at a place. A new file is made in the directory
above it. -/
def writeProblem? (t : FileTree) (place : Path) : Option FileProblem :=
  match t.entry? place with
  | some .directory => some .isDirectory
  | some (.file _) => if t.allows .write place then none else some .permissionDenied
  | none => if t.allows .write place.up then none else some .permissionDenied

/-- The tree with a file put at a place. -/
def withFile (t : FileTree) (place : Path) (bytes : List UInt8) : FileTree :=
  { t with files := Keyed.put Prod.fst (place, bytes) t.files }

/-- The tree after a file has been written, in one piece and with nothing else changed. The
file may exist; the directory that holds it has to. -/
def write (t : FileTree) (p : Path) (bytes : List UInt8) : Except Fault FileTree := do
  let place ← t.locateToOpen p
  match t.writeProblem? place with
  | some problem => inaccessible p problem
  | none => return t.withFile place bytes

end FileTree

end Typings
