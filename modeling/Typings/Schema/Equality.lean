import Typings.Json.Basic
import Typings.Schema.Node

/-!
# Equality of nodes

Structural equality of nodes, parameters, properties and functions is decidable: the test
below holds exactly if the two sides are equal.

Nodes, parameters, properties and functions refer to each other, through lists and options too, so
the test is one recursion over all of them, and so is the proof that it is right.
-/

namespace Typings.Schema

instance : DecidableEq Info := fun a b =>
  decidable_of_iff (a.id = b.id ∧ a.description = b.description ∧ a.optional = b.optional ∧
      a.deprecated = b.deprecated ∧ a.unsupported = b.unsupported ∧ a.extends? = b.extends?) (by
    cases a; cases b; simp)

mutual

def Node.beq : Node → Node → Bool
  | ⟨i, s⟩, ⟨j, t⟩ => i == j && s.beq t

def Shape.beq : Shape → Shape → Bool
  | .reference a, .reference b => a == b
  | .number a, .number b => a == b
  | .string a, .string b => a == b
  | .array a, .array b => Node.beqOption a b
  | .boolean, .boolean => true
  | .choice a, .choice b => Node.beqList a b
  | .function a r c, .function b s d => Parameter.beqList a b && Node.beqOption r s && c == d
  | .any, .any => true
  | .object none f e a, .object none g h b =>
    Callable.beqList f g && Callable.beqList e h && Node.beqOption a b
  | .object (some p) f e a, .object (some q) g h b =>
    Property.beqList p q && Callable.beqList f g && Callable.beqList e h && Node.beqOption a b
  | .constant a, .constant b => a == b
  | .unknown a, .unknown b => a == b
  | _, _ => false

def Node.beqOption : Option Node → Option Node → Bool
  | none, none => true
  | some a, some b => a.beq b
  | _, _ => false

def Node.beqList : List Node → List Node → Bool
  | [], [] => true
  | a :: as, b :: bs => a.beq b && Node.beqList as bs
  | _, _ => false

def Parameter.beq : Parameter → Parameter → Bool
  | ⟨k, a⟩, ⟨l, b⟩ => k == l && a.beq b

def Parameter.beqList : List Parameter → List Parameter → Bool
  | [], [] => true
  | a :: as, b :: bs => a.beq b && Parameter.beqList as bs
  | _, _ => false

def Property.beq : Property → Property → Bool
  | ⟨k, a⟩, ⟨l, b⟩ => k == l && a.beq b

def Property.beqList : List Property → List Property → Bool
  | [], [] => true
  | a :: as, b :: bs => a.beq b && Property.beqList as bs
  | _, _ => false

def Callable.beq : Callable → Callable → Bool
  | ⟨n, a, d, ps, r, x, u⟩, ⟨n', a', d', ps', r', x', u'⟩ =>
    n == n' && a == a' && d == d' && Parameter.beqList ps ps' && Node.beqOption r r' &&
      x == x' && u == u'

def Callable.beqList : List Callable → List Callable → Bool
  | [], [] => true
  | a :: as, b :: bs => a.beq b && Callable.beqList as bs
  | _, _ => false

end

mutual

theorem Node.beq_iff : (a b : Node) → (a.beq b = true ↔ a = b)
  | ⟨i, s⟩, ⟨j, t⟩ => by simp [Node.beq, Shape.beq_iff s]

theorem Shape.beq_iff : (a b : Shape) → (a.beq b = true ↔ a = b)
  | .reference a, b => by cases b <;> simp [Shape.beq]
  | .number a, b => by cases b <;> simp [Shape.beq]
  | .string a, b => by cases b <;> simp [Shape.beq]
  | .array a, b => by cases b <;> simp [Shape.beq, Node.beqOption_iff a]
  | .boolean, b => by cases b <;> simp [Shape.beq]
  | .choice a, b => by cases b <;> simp [Shape.beq, Node.beqList_iff a]
  | .function a r c, b => by
    cases b <;> simp [Shape.beq, Parameter.beqList_iff a, Node.beqOption_iff r, and_assoc]
  | .any, b => by cases b <;> simp [Shape.beq]
  | .object none f e a, b => by
    rcases b with _ | _ | _ | _ | _ | _ | _ | _ | ⟨_ | q, _, _, _⟩ | _ | _ <;>
      simp [Shape.beq, Callable.beqList_iff f, Callable.beqList_iff e, Node.beqOption_iff a,
        and_assoc]
  | .object (some p) f e a, b => by
    rcases b with _ | _ | _ | _ | _ | _ | _ | _ | ⟨_ | q, _, _, _⟩ | _ | _ <;>
      simp [Shape.beq, Property.beqList_iff p, Callable.beqList_iff f, Callable.beqList_iff e,
        Node.beqOption_iff a, and_assoc]
  | .constant a, b => by cases b <;> simp [Shape.beq]
  | .unknown a, b => by cases b <;> simp [Shape.beq]

theorem Node.beqOption_iff : (a b : Option Node) → (Node.beqOption a b = true ↔ a = b)
  | none, b => by cases b <;> simp [Node.beqOption]
  | some a, b => by cases b <;> simp [Node.beqOption, Node.beq_iff a]

theorem Node.beqList_iff : (as bs : List Node) → (Node.beqList as bs = true ↔ as = bs)
  | [], bs => by cases bs <;> simp [Node.beqList]
  | a :: as, bs => by cases bs <;> simp [Node.beqList, Node.beq_iff a, Node.beqList_iff as]

theorem Parameter.beq_iff : (a b : Parameter) → (a.beq b = true ↔ a = b)
  | ⟨k, a⟩, ⟨l, b⟩ => by simp [Parameter.beq, Node.beq_iff a]

theorem Parameter.beqList_iff :
    (as bs : List Parameter) → (Parameter.beqList as bs = true ↔ as = bs)
  | [], bs => by cases bs <;> simp [Parameter.beqList]
  | a :: as, bs => by
    cases bs <;> simp [Parameter.beqList, Parameter.beq_iff a, Parameter.beqList_iff as]

theorem Property.beq_iff : (a b : Property) → (a.beq b = true ↔ a = b)
  | ⟨k, a⟩, ⟨l, b⟩ => by simp [Property.beq, Node.beq_iff a]

theorem Property.beqList_iff :
    (as bs : List Property) → (Property.beqList as bs = true ↔ as = bs)
  | [], bs => by cases bs <;> simp [Property.beqList]
  | a :: as, bs => by
    cases bs <;> simp [Property.beqList, Property.beq_iff a, Property.beqList_iff as]

theorem Callable.beq_iff : (a b : Callable) → (a.beq b = true ↔ a = b)
  | ⟨n, a, d, ps, r, x, u⟩, ⟨n', a', d', ps', r', x', u'⟩ => by
    simp [Callable.beq, Parameter.beqList_iff ps, Node.beqOption_iff r, and_assoc]

theorem Callable.beqList_iff :
    (as bs : List Callable) → (Callable.beqList as bs = true ↔ as = bs)
  | [], bs => by cases bs <;> simp [Callable.beqList]
  | a :: as, bs => by
    cases bs <;> simp [Callable.beqList, Callable.beq_iff a, Callable.beqList_iff as]

end

instance : DecidableEq Node := fun a b => decidable_of_iff _ (Node.beq_iff a b)
instance : DecidableEq Parameter := fun a b => decidable_of_iff _ (Parameter.beq_iff a b)
instance : DecidableEq Property := fun a b => decidable_of_iff _ (Property.beq_iff a b)
instance : DecidableEq Callable := fun a b => decidable_of_iff _ (Callable.beq_iff a b)

end Typings.Schema
