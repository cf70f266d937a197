/-!
# Overloads

A parameter that may be left out can be marked so only if no required parameter follows.
The others are left out one after the other, each time in a signature of its own, and the
signature with all parameters comes last. If all parameters are optional, the last one
stays in every signature, as if it were required.

The lists come from a loop that looks for the first parameter that can go, keeps what is left and
starts again. Every round leaves one parameter fewer, so there are no more rounds than parameters.
-/

namespace Typings.Overload

variable {α : Type}

/-- The place of the last required parameter. -/
def lastRequired? (optional : α → Bool) : List α → Option Nat
  | [] => none
  | p :: ps =>
    match lastRequired? optional ps with
    | some i => some (i + 1)
    | none => if optional p then none else some 0

/-- The parameters among which one to leave out is looked for: those in front of the last
required one, or all but the last if none is required. -/
def candidates (optional : α → Bool) (ps : List α) : List α :=
  match lastRequired? optional ps with
  | some i => ps.take i
  | none => ps.dropLast

/-- The place of the first parameter to leave out. -/
def firstDroppable? (optional : α → Bool) (ps : List α) : Option Nat :=
  (candidates optional ps).findIdx? optional

/-- Leave out one parameter after the other, at most `n` of them: what is left each time. -/
def dropEach (optional : α → Bool) : Nat → List α → List (List α)
  | 0, _ => []
  | n + 1, ps =>
    match firstDroppable? optional ps with
    | none => []
    | some i => ps.eraseIdx i :: dropEach optional n (ps.eraseIdx i)

/-- The parameter lists of all signatures. No more parameters can be left out than there
are. -/
def lists (optional : α → Bool) (ps : List α) : List (List α) :=
  dropEach optional ps.length ps ++ [ps]

theorem lists_ne_nil (optional : α → Bool) (ps : List α) : lists optional ps ≠ [] :=
  List.append_ne_nil_of_right_ne_nil _ (List.cons_ne_nil _ _)

example : lists Char.isLower ['a', 'B', 'c', 'D', 'e'] =
    [['B', 'c', 'D', 'e'], ['B', 'D', 'e'], ['a', 'B', 'c', 'D', 'e']] := by decide

example : lists Char.isLower ['a', 'b', 'c'] = [['b', 'c'], ['c'], ['a', 'b', 'c']] := by decide

end Typings.Overload
