import Typings.Generator

/-!
# A run from the command line

What the program does to the file tree and what it tells the user: how it ends, the error
message and the warnings. Documents that are refused, and whatever the operating system
refuses, are reported and end the run with exit code 1. Any other fault, such as a value
that a schema wrote into an unchecked field, is not reported but handed on. So is a report
that cannot be shown.

How arguments are read is left open: whatever reads them gives a configuration, or ends
the program with an exit code of its own.
-/

namespace Typings.CommandLine

/-- How the program ends. -/
inductive Ending where
  /-- It gives an exit code, with these words on the error console. -/
  | exit (code : Nat) (errors : String)
  /-- It hands on a fault. -/
  | raised (f : Fault)

/-- The effect of a run. -/
structure Effect where
  ending : Ending
  warnings : List Warning := []
  tree : FileTree

/-- What a fault is announced with. -/
def heading : Fault → String
  | .refused .. => "Error reading schema file:"
  | _ => "Error:"

/-- What is said of a fault. -/
def errorText (h : Host) (f : Fault) (message : String) : String :=
  Host.errorStyle (heading f) ++ h.escape message

/-- How the program ends with a fault: it is reported if it has a message. -/
def report (h : Host) (f : Fault) : Ending :=
  match f.message? with
  | none => .raised f
  | some message =>
    match h.err (errorText h f message) with
    | .ok errors => .exit 1 errors
    | .error problem => .raised (.unprintable problem)

/-- How the program ends with a result. -/
def endingOf (h : Host) : Except Fault Path → Ending
  | .ok _ => .exit 0 ""
  | .error f => report h f

/-- Generate the declaration file. -/
def execute (h : Host) (t : FileTree) (c : Config) : Effect :=
  let run := Generator.generate h t c
  { ending := endingOf h run.result, warnings := run.warnings, tree := run.tree }

/-- Do what the arguments ask for. -/
def run (h : Host) (request : List String → Except Nat Config) (t : FileTree)
    (args : List String) : Effect :=
  match request args with
  | .error code => { ending := .exit code "", tree := t }
  | .ok config => execute h t config

end Typings.CommandLine
