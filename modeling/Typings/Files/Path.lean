import Typings.Text.Cut

/-!
# Paths

Slash-separated paths in normal form. Empty parts and single points vanish, while double
points stay. A path that starts with exactly two slashes keeps both; three or more count
as one.

A path is kept as its normal form, so two spellings of one place are equal. Nothing is looked up:
a double point is kept because what it leads to depends on the directories that are there.
-/

namespace Typings

/-- What a path starts from. -/
inductive Anchor where
  /-- The working directory. -/
  | here
  | root
  /-- A path with two slashes in front. -/
  | doubleRoot
  deriving DecidableEq, Repr

/-- A path in normal form. -/
structure Path where
  anchor : Anchor
  parts : List String
  deriving DecidableEq, Repr

namespace Path

/-- The working directory. -/
def here : Path := ⟨.here, []⟩

/-- What a text of a path starts from. -/
def anchorOf : List Char → Anchor
  | '/' :: '/' :: '/' :: _ => .root
  | '/' :: '/' :: _ => .doubleRoot
  | '/' :: _ => .root
  | _ => .here

/-- Is a part of a path written out? -/
def isPart (s : String) : Bool := s ≠ "" && s ≠ "."

/-- The path that a text names. -/
def ofString (s : String) : Path where
  anchor := anchorOf s.toList
  parts := ((Text.cut '/' s.toList).map String.ofList).filter isPart

/-- The text in front of the parts. -/
def anchorText : Anchor → String
  | .here => ""
  | .root => "/"
  | .doubleRoot => "//"

/-- The text of a path; that of the working directory is a point. -/
def toString (p : Path) : String :=
  if p = here then "." else anchorText p.anchor ++ "/".intercalate p.parts

instance : ToString Path := ⟨toString⟩

/-- Does a path hold a null character? -/
def hasNull (p : Path) : Bool := p.parts.any fun part => part.toList.contains '\x00'

/-- The path `q`, taken to start from the directory `p`. -/
def join (p q : Path) : Path :=
  match q.anchor with
  | .here => ⟨p.anchor, p.parts ++ q.parts⟩
  | _ => q

/-- The path of an entry of a directory. -/
def child (p : Path) (name : String) : Path := ⟨p.anchor, p.parts ++ [name]⟩

/-- The path one level up. A path of double points, which leads up from the working
directory, gets one more. -/
def up (p : Path) : Path :=
  if p.anchor = .here ∧ p.parts.all (· = "..") then p.child ".."
  else ⟨p.anchor, p.parts.dropLast⟩

/-- The place that a path leads to if all directories on the way exist. -/
def place (p : Path) : Path :=
  p.parts.foldl (fun q part => if part = ".." then q.up else q.child part) ⟨p.anchor, []⟩

/-- The ending of a file name from its last point on. A point that is the first or the
last character of the name starts no ending. -/
def suffix (name : String) : String :=
  let cs := name.toList
  let ending := (cs.reverse.takeWhile (· ≠ '.')).reverse
  let stem := cs.take (cs.length - ending.length - 1)
  if ending.isEmpty || ending.length = cs.length || stem.isEmpty then ""
  else String.ofList ('.' :: ending)

example : (ofString "out//sub/./y").toString = "out/sub/y" := by decide +kernel

example : (ofString "///a/..").toString = "/a/.." ∧ (ofString "").toString = "." := by
  decide +kernel

example : suffix ".json" = "" ∧ suffix "a." = "" ∧ suffix "..json" = ".json" := by
  decide +kernel

end Path

end Typings
