import Typings.Proofs.KeyedLists
import Typings.Proofs.TypeSyntax.Token

/-!
# Syntax trees of types

What a type expression says, once its precedences are resolved. Parentheses leave nothing
behind in a tree. A union is a list of options none of which is a union itself: an option
that is one is replaced by its own options, and an option that comes again is dropped. So
`join`, which puts two types into one union, is associative, and it does not matter how the
options of a union are grouped.

Parameter lists and member lists are trees as well (`nil` and `field`), so that one
induction goes over all of a tree.
-/

namespace Typings.TypeSyntax

/-- What stands in front of the colon of a parameter or a member. -/
inductive Label where
  | named (name : Token) (optional : Bool)
  /-- All properties without a member of their own. -/
  | index
  deriving DecidableEq

/-- A syntax tree. -/
inductive Tree where
  /-- A name or a literal. -/
  | leaf (token : Token)
  | array (items : Tree)
  | promise (value : Tree)
  /-- A union: its first option, and the others. Built by `ofOptions` only. -/
  | either (option others : Tree)
  | arrow (parameters result : Tree)
  | object (members : Tree)
  | nil
  | field (label : Label) (type rest : Tree)
  deriving DecidableEq, Inhabited

namespace Tree

/-- The options of a type; a type that is no union is its own option. -/
def options : Tree → List Tree
  | either t u => t.options ++ u.options
  | t => [t]

/-- The type with the given options. -/
def ofOptions : List Tree → Tree
  | [] => nil
  | [t] => t
  | t :: ts => either t (ofOptions ts)

/-- The union of some types. -/
def union (ts : List Tree) : Tree := ofOptions (Keyed.distinct some (ts.flatMap options))

/-- The union of two types. -/
def join (t u : Tree) : Tree := union [t, u]

/-- Options do not break up further. -/
theorem options_of_mem {t o : Tree} (h : o ∈ t.options) : o.options = [o] := by
  induction t with
  | either t u iht ihu =>
    rcases List.mem_append.mp h with h | h
    · exact iht h
    · exact ihu h
  | _ =>
    rw [List.mem_singleton.mp h]
    rfl

theorem options_ne_nil (t : Tree) : t.options ≠ [] := by
  induction t with
  | either t u iht ihu => exact List.append_ne_nil_of_left_ne_nil iht _
  | _ => exact List.cons_ne_nil _ _

theorem options_ofOptions {ts : List Tree} (hne : ts ≠ []) (h : ∀ t ∈ ts, t.options = [t]) :
    (ofOptions ts).options = ts := by
  induction ts with
  | nil => exact absurd rfl hne
  | cons t ts ih =>
    obtain ⟨ht, hts⟩ := List.forall_mem_cons.mp h
    cases ts with
    | nil => exact ht
    | cons u ts =>
      show t.options ++ (ofOptions (u :: ts)).options = _
      rw [ht, ih (List.cons_ne_nil u ts) hts]
      rfl

theorem flatMap_options_ne_nil {ts : List Tree} (h : ts ≠ []) : ts.flatMap options ≠ [] := by
  obtain ⟨t, ts, rfl⟩ := List.exists_cons_of_ne_nil h
  rw [List.flatMap_cons]
  exact List.append_ne_nil_of_left_ne_nil (options_ne_nil t) _

/-- **The options of a union** are those of its parts, each one once. -/
theorem options_union {ts : List Tree} (h : ts ≠ []) :
    (union ts).options = Keyed.distinct some (ts.flatMap options) := by
  refine options_ofOptions (Keyed.distinct_ne_nil (flatMap_options_ne_nil h)) (fun o ho => ?_)
  obtain ⟨t, -, hot⟩ := List.mem_flatMap.mp (Keyed.mem_of_mem_distinct ho)
  exact options_of_mem hot

/-- A union inside a union says nothing more than its options do. -/
theorem union_cons_union {ts : List Tree} (h : ts ≠ []) (t : Tree) :
    union [t, union ts] = union (t :: ts) := by
  show ofOptions (Keyed.distinct some (t.options ++ ((union ts).options ++ []))) =
    ofOptions (Keyed.distinct some (t.options ++ ts.flatMap options))
  rw [options_union h, List.append_nil, Keyed.distinct_append_right]

theorem join_union {ts : List Tree} (h : ts ≠ []) (t : Tree) :
    t.join (union ts) = union (t :: ts) := union_cons_union h t

theorem join_assoc (t u v : Tree) : (t.join u).join v = t.join (u.join v) := by
  -- both sides are the union of all three
  have hleft : (t.join u).join v = union [t, u, v] := by
    show ofOptions (Keyed.distinct some ((union [t, u]).options ++ (v.options ++ []))) = _
    rw [options_union (List.cons_ne_nil t [u]), Keyed.distinct_append_left, List.append_nil]
    simp [union]
  rw [hleft, join, join, union_cons_union (List.cons_ne_nil u [v])]

/-- The trees that a union of one option leaves as they are. -/
def IsFlat (t : Tree) : Prop := union [t] = t

theorem isFlat_union {ts : List Tree} (h : ts ≠ []) : IsFlat (union ts) := by
  show ofOptions (Keyed.distinct some ((union ts).options ++ [])) = _
  rw [options_union h, List.append_nil, Keyed.distinct_distinct]
  rfl

theorem isFlat_of_options {t : Tree} (h : t.options = [t]) : IsFlat t := by
  show ofOptions (Keyed.distinct some (t.options ++ [])) = t
  rw [h]
  rfl

end Tree

end Typings.TypeSyntax
