import Typings.Json.Display
import Typings.Json.Reader
import Typings.Text.Utf8

/-!
# Faults

Why an operation gives up. There are four kinds of reasons.

* A document is refused, for one of the problems of `Schema.Problem`: the ways in which a file can
  fail to be a schema document, from its bytes up to the fields that every function and parameter
  must have. The fault names the file once it is known.
* A file is out of reach. The fault names the path.
* Something that was to be shown or written could not be: the console does not take a
  message, or a text has no bytes.
* A field that was kept unchecked holds a value that its use does not allow.

A problem is data, and its words are made when it is shown. So that a file is refused, and for what
reason, can be said without a word of the message, and the message is still part of the model. Only
faults of the first two kinds, and a console whose channel is gone, have a message for the user. All
others end the run where they stand.
-/

namespace Typings.Schema

/-! ## Why a document is refused -/

/-- The parts of a document that must be objects. -/
inductive Part where
  | record | type | function | parameter | properties
  deriving DecidableEq, Repr

/-- A part as it is called in messages. -/
def Part.words : Part → String
  | .record => "a namespace record"
  | .type => "a type"
  | .function => "a function"
  | .parameter => "a parameter"
  | .properties => "properties"

/-- What is wrong with a document. -/
inductive Problem where
  | notAnObject (part : Part) (found : Json.Kind)
  | notAList (field : String) (found : Json.Kind)
  | parametersNotAList
  | notRecords (found : Json.Kind)
  | namelessMember
  | namelessParameter
  | namelessFunction
  | namelessRecord
  /-- A problem inside the record of a namespace. -/
  | within (namespaceName : String) (problem : Problem)
  | notUtf8 (defect : Text.Utf8.Defect)
  | notJson (defect : Json.LocatedDefect)
  deriving DecidableEq, Repr

/-- The bytes at a defect in words. -/
def utf8Message (d : Text.Utf8.Defect) : String :=
  let place :=
    if d.length = 1 then
      "byte 0x" ++ String.ofList (Text.hexDigits 2 d.byte.toNat) ++ " in position " ++
        toString d.start
    else
      "bytes in position " ++ toString d.start ++ "-" ++ toString (d.start + d.length - 1)
  "'utf-8' codec can't decode " ++ place ++ ": " ++ d.reason.message

/-- A problem in words. -/
def Problem.message : Problem → String
  | .notAnObject part found =>
    "expected " ++ part.words ++ " to be an object, got " ++ found.word
  | .notAList field found => "expected `" ++ field ++ "` to be a list, got " ++ found.word
  | .parametersNotAList => "expected `parameters` to be a list"
  | .notRecords found => "expected a list of namespace records, got " ++ found.word
  | .namelessMember => "enum member without a name"
  | .namelessParameter => "parameter without a name"
  | .namelessFunction => "function without a name"
  | .namelessRecord => "namespace record without a `namespace` name"
  | .within name problem => "in namespace '" ++ name ++ "': " ++ problem.message
  | .notUtf8 d => "not valid UTF-8 (" ++ utf8Message d ++ ")"
  | .notJson d => "invalid JSON (" ++ d.message ++ ")"

end Typings.Schema

namespace Typings

/-! ## Why an operation stops -/

/-- Why the file system refuses a path. -/
inductive FileProblem where
  | missing | permissionDenied | isDirectory | notADirectory | nameTooLong
  deriving DecidableEq, Repr

/-- Why a console does not show a message. -/
inductive ConsoleProblem where
  /-- A tag of the markup closes nothing that is open. -/
  | markup
  /-- The channel has no bytes for a character. -/
  | encoding
  /-- The channel itself fails, with these words of the operating system. -/
  | channel (words : String)
  deriving DecidableEq, Repr

/-- What stops an operation. -/
inductive Fault where
  /-- A document is refused; `file` is where it was read from. -/
  | refused (file : Option String) (problem : Schema.Problem)
  /-- The file system refuses a path. -/
  | inaccessible (problem : FileProblem) (path : String)
  /-- A path holds a null character, so it cannot name anything. -/
  | nullInPath
  /-- A message cannot be shown. -/
  | unprintable (problem : ConsoleProblem)
  /-- A text holds half a surrogate pair, for which there are no bytes. -/
  | unencodable
  /-- The choices of a type are neither a list nor anything with parts. -/
  | choicesWithoutParts (found : Json.Kind)
  /-- A reference is neither a text nor anything that could hold a point. -/
  | unreadableReference (found : Json.Kind)
  /-- A list or object stands where values are told apart by a key. -/
  | compositeKey
  /-- A name that has to be written out is no text. -/
  | nameNotText (found : Json.Kind)
  /-- A description is no text. -/
  | descriptionNotText (found : Json.Kind)
  /-- A reference that is a list or object stands where the start of a type is looked at. -/
  | compositeType
  /-- A namespace is asked for that the table does not have. -/
  | unknownNamespace (name : String)
  deriving DecidableEq, Repr

namespace Fault

/-- The number and the words of the operating system for a file problem. -/
def fileWords : FileProblem → String
  | .missing => "[Errno 2] No such file or directory"
  | .permissionDenied => "[Errno 13] Permission denied"
  | .isDirectory => "[Errno 21] Is a directory"
  | .notADirectory => "[Errno 20] Not a directory"
  | .nameTooLong => "[Errno 36] File name too long"

/-- The message of a fault that is shown to the user; other faults have none. -/
def message? : Fault → Option String
  | .refused none problem => some problem.message
  | .refused (some file) problem => some (file ++ ": " ++ problem.message)
  | .inaccessible problem path => some (fileWords problem ++ ": " ++ Text.quoted path)
  | .unprintable (.channel words) => some words
  | _ => none

/-- The fault of a record, seen from outside the record. -/
def within (name : String) : Fault → Fault
  | .refused file problem => .refused file (.within name problem)
  | f => f

/-- The fault of a document, once the file is known that holds it. -/
def inFile (path : String) : Fault → Fault
  | .refused _ problem => .refused (some path) problem
  | f => f

/-! ## Results and faults of compound operations -/

section Results

variable {α β : Type} {r : Except Fault α}

theorem bind_eq_ok {f : α → Except Fault β} {b : β} :
    (r >>= f) = .ok b ↔ ∃ a, r = .ok a ∧ f a = .ok b := by
  cases r with
  | error e => simp [bind, Except.bind]
  | ok a => simp [bind, Except.bind]

theorem bind_eq_error {f : α → Except Fault β} {e : Fault} :
    (r >>= f) = .error e ↔ r = .error e ∨ ∃ a, r = .ok a ∧ f a = .error e := by
  cases r with
  | error e' => simp [bind, Except.bind]
  | ok a => simp [bind, Except.bind]

theorem map_eq_error {f : α → β} {e : Fault} : f <$> r = .error e ↔ r = .error e := by
  cases r with
  | error e' => simp [Functor.map, Except.map]
  | ok a => simp [Functor.map, Except.map]

theorem map_eq_ok {f : α → β} {b : β} : f <$> r = .ok b ↔ ∃ a, r = .ok a ∧ f a = b := by
  cases r with
  | error e => simp [Functor.map, Except.map]
  | ok a => simp [Functor.map, Except.map]

theorem ite_eq_ok {c : Prop} [Decidable c] {s : Except Fault α} {a : α} :
    (if c then r else s) = .ok a ↔ c ∧ r = .ok a ∨ ¬ c ∧ s = .ok a := by
  by_cases h : c <;> simp [h]

end Results

end Fault

end Typings
