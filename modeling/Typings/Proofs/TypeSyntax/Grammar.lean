import Typings.Proofs.TypeSyntax.Token
import Typings.Proofs.TypeSyntax.Tree

/-!
# The grammar of types

An array's brackets bind more tightly than the bar of a union, and the bar more tightly than
the arrow in front of a result:

* a primary type is a name, a literal, a promise, an object type or any type in parentheses;
* an operand is a primary type with any number of brackets behind it;
* a union is one operand or several with bars between them;
* a type is a union, or a parameter list, an arrow and a type.

The grammar is unambiguous: the tokens of a type have one tree only (`Derives.unique`). To
see this, tokens are read from left to right with as much lookahead as it takes to tell a
parameter list from a type in parentheses. Reading is of no interest by itself. It finds
every tree that can be derived, and it finds only one.
-/

namespace Typings.TypeSyntax

/-- Lists of labelled types. -/
inductive ListKind where
  | parameters
  | members
  deriving DecidableEq

namespace ListKind

/-- What stands between two entries. -/
def separator : ListKind → Char
  | .parameters => ','
  | .members => ';'

/-- What stands behind a list. -/
def closing : ListKind → Char
  | .parameters => ')'
  | .members => '\x7d'

/-- Can an entry have this label? -/
inductive Admits : ListKind → Label → Prop where
  | name {k : ListKind} {w : String} (h : PropertyKey.isIdentifier w.toList = true)
    (optional : Bool) : Admits k (.named (.word w) optional)
  | literal (s : String) (optional : Bool) :
    Admits .members (.named (.quote (Json.stringLiteral s)) optional)
  | index : Admits .members .index

end ListKind

/-- The tokens of a label. -/
def Label.tokens : Label → List Token
  | .named t false => [t]
  | .named t true => [t, .sign '?']
  | .index => [.sign '[', .word "key", .sign ':', .word "string", .sign ']']

/-- The tokens that are types by themselves. -/
inductive IsLeaf : Token → Prop where
  | name {w : String} (h : IsDotted w.toList) : IsLeaf (.word w)
  | literal (s : Scalar) : IsLeaf (literalToken s)

/-- What can be derived. -/
inductive Symbol where
  | primary
  | operand
  | union
  | type
  /-- One entry or several. -/
  | series (k : ListKind)
  | fields (k : ListKind)
  deriving DecidableEq

/-- The grammar: these tokens are derived from the symbol, with this syntax tree. -/
inductive Derives : Symbol → List Token → Tree → Prop where
  | leaf {x : Token} (h : IsLeaf x) : Derives .primary [x] (.leaf x)
  | promise {xs : List Token} {t : Tree} (h : Derives .type xs t) :
    Derives .primary (.word "Promise" :: .sign '<' :: (xs ++ [.sign '>'])) (.promise t)
  | parentheses {xs : List Token} {t : Tree} (h : Derives .type xs t) :
    Derives .primary (.sign '(' :: (xs ++ [.sign ')'])) t
  | object {xs : List Token} {t : Tree} (h : Derives (.fields .members) xs t) :
    Derives .primary (.sign '\x7b' :: (xs ++ [.sign '\x7d'])) (.object t)
  | primary {xs : List Token} {t : Tree} (h : Derives .primary xs t) : Derives .operand xs t
  | array {xs : List Token} {t : Tree} (h : Derives .operand xs t) :
    Derives .operand (xs ++ [.sign '[', .sign ']']) (.array t)
  | operand {xs : List Token} {t : Tree} (h : Derives .operand xs t) : Derives .union xs t
  | bar {xs ys : List Token} {t u : Tree} (ht : Derives .operand xs t)
    (hu : Derives .union ys u) : Derives .union (xs ++ .sign '|' :: ys) (t.join u)
  | union {xs : List Token} {t : Tree} (h : Derives .union xs t) : Derives .type xs t
  | arrow {xs ys : List Token} {t u : Tree} (ht : Derives (.fields .parameters) xs t)
    (hu : Derives .type ys u) :
    Derives .type (.sign '(' :: (xs ++ .sign ')' :: .arrow :: ys)) (.arrow t u)
  | last {k : ListKind} {l : Label} {xs : List Token} {t : Tree} (hl : k.Admits l)
    (ht : Derives .type xs t) :
    Derives (.series k) (l.tokens ++ .sign ':' :: xs) (.field l t .nil)
  | more {k : ListKind} {l : Label} {xs ys : List Token} {t u : Tree} (hl : k.Admits l)
    (ht : Derives .type xs t) (hu : Derives (.series k) ys u) :
    Derives (.series k) (l.tokens ++ .sign ':' :: (xs ++ .sign k.separator :: ys)) (.field l t u)
  | none {k : ListKind} : Derives (.fields k) [] .nil
  | series {k : ListKind} {xs : List Token} {t : Tree} (h : Derives (.series k) xs t) :
    Derives (.fields k) xs t

/-- Unions with a bar between them are a union. -/
theorem Derives.bar_union {xs ys : List Token} {t u : Tree} (ht : Derives .union xs t)
    (hu : Derives .union ys u) : Derives .union (xs ++ .sign '|' :: ys) (t.join u) := by
  generalize hs : Symbol.union = s at ht
  induction ht with
  | operand h => exact .bar h hu
  | bar h _ _ ih =>
    rw [Tree.join_assoc, List.append_assoc]
    exact .bar h (ih rfl)
  | _ => cases hs

/-! ## Reading from left to right -/

/-- Arrays over a type, as many as there are brackets. -/
def arrays : Tree → List Token → Tree × List Token
  | t, x :: y :: rest => if x = .sign '[' then arrays (.array t) rest else (t, x :: y :: rest)
  | t, rest => (t, rest)

/-- Behind an opening parenthesis, do parameters come next? -/
def startsParameters : List Token → Bool
  | .sign c :: _ => c = ')'
  | .word _ :: .sign c :: _ => c = ':' || c = '?'
  | _ => false

/-- Does a function type come next? -/
def startsArrow : List Token → Bool
  | .sign c :: rest => c = '(' && startsParameters rest
  | _ => false

/-- Read a label. -/
def readLabel : List Token → Option (Label × List Token)
  | [] => none
  | x :: rest =>
    if x = .sign '[' then some (.index, rest.drop 4)
    else if rest.head? = some (.sign '?') then some (.named x true, rest.drop 1)
    else some (.named x false, rest)

/-- Something that reads what is derived from a symbol, and gives the rest. -/
abbrev Reader := Symbol → List Token → Option (Tree × List Token)

section Reader

variable (r : Reader)

/-- Read a primary type. Signs that have to be there are not looked at. -/
def readPrimary : List Token → Option (Tree × List Token)
  | .word w :: rest =>
    if rest.head? = some (.sign '<') then do
      let (t, rest) ← r .type (rest.drop 1)
      return (.promise t, rest.drop 1)
    else return (.leaf (.word w), rest)
  | .sign c :: rest =>
    if c = '(' then do
      let (t, rest) ← r .type rest
      return (t, rest.drop 1)
    else do
      let (t, rest) ← r (.fields .members) rest
      return (.object t, rest.drop 1)
  | x :: rest => return (.leaf x, rest)
  | [] => none

def readOperand (xs : List Token) : Option (Tree × List Token) := do
  let (t, rest) ← r .primary xs
  return arrays t rest

def readUnion (xs : List Token) : Option (Tree × List Token) := do
  let (t, rest) ← r .operand xs
  if rest.head? = some (.sign '|') then
    let (u, rest) ← r .union (rest.drop 1)
    return (t.join u, rest)
  else return (t, rest)

def readType (xs : List Token) : Option (Tree × List Token) :=
  if startsArrow xs then do
    let (t, rest) ← r (.fields .parameters) (xs.drop 1)
    let (u, rest) ← r .type (rest.drop 2)
    return (.arrow t u, rest)
  else r .union xs

def readSeries (k : ListKind) (xs : List Token) : Option (Tree × List Token) := do
  let (l, rest) ← readLabel xs
  let (t, rest) ← r .type (rest.drop 1)
  if rest.head? = some (.sign k.separator) then
    let (u, rest) ← r (.series k) (rest.drop 1)
    return (.field l t u, rest)
  else return (.field l t .nil, rest)

def readFields (k : ListKind) (xs : List Token) : Option (Tree × List Token) :=
  if xs.head? = some (.sign k.closing) then return (.nil, xs) else r (.series k) xs

end Reader

/-- Read what is derived from a symbol, with a bound on the depth of the recursion. -/
def read : Nat → Reader
  | 0, _, _ => none
  | n + 1, .primary, xs => readPrimary (read n) xs
  | n + 1, .operand, xs => readOperand (read n) xs
  | n + 1, .union, xs => readUnion (read n) xs
  | n + 1, .type, xs => readType (read n) xs
  | n + 1, .series k, xs => readSeries (read n) k xs
  | n + 1, .fields k, xs => readFields (read n) k xs

/-- Reading ends with this tree, and this rest. -/
def ReadsTo (s : Symbol) (xs : List Token) (t : Tree) (rest : List Token) : Prop :=
  ∃ enough, ∀ n, enough ≤ n → read n s xs = some (t, rest)

/-- It ends in one way. -/
theorem ReadsTo.unique {s : Symbol} {xs rest rest' : List Token} {t u : Tree}
    (ht : ReadsTo s xs t rest) (hu : ReadsTo s xs u rest') : t = u := by
  obtain ⟨m, hm⟩ := ht
  obtain ⟨n, hn⟩ := hu
  have heq := (hm (max m n) (Nat.le_max_left m n)).symm.trans (hn (max m n) (Nat.le_max_right m n))
  exact congrArg Prod.fst (Option.some.inj heq)

namespace ReadsTo

/-- One step of reading may be left out of account. -/
theorem of_succ {s : Symbol} {xs rest : List Token} {t : Tree}
    (h : ∃ enough, ∀ n, enough ≤ n → read (n + 1) s xs = some (t, rest)) : ReadsTo s xs t rest := by
  obtain ⟨enough, h⟩ := h
  refine ⟨enough + 1, fun n hn => ?_⟩
  obtain ⟨m, rfl⟩ : ∃ m, n = m + 1 := ⟨n - 1, by omega⟩
  exact h m (by omega)

variable {xs ys rest : List Token} {t u : Tree} {x y : Token}

theorem word {w : String} (h : rest.head? ≠ some (.sign '<')) :
    ReadsTo .primary (.word w :: rest) (.leaf (.word w)) rest :=
  of_succ ⟨0, fun _ _ => if_neg h⟩

theorem quote {q : String} : ReadsTo .primary (.quote q :: rest) (.leaf (.quote q)) rest :=
  of_succ ⟨0, fun _ _ => rfl⟩

theorem promise {w : String} (h : ReadsTo .type xs t (x :: rest)) :
    ReadsTo .primary (.word w :: .sign '<' :: xs) (.promise t) rest := by
  obtain ⟨enough, h⟩ := h
  refine of_succ ⟨enough, fun n hn => ?_⟩
  show (do let (t, rest) ← read n .type xs; return (Tree.promise t, rest.drop 1)) = _
  rw [h n hn]
  rfl

theorem parentheses (h : ReadsTo .type xs t (x :: rest)) :
    ReadsTo .primary (.sign '(' :: xs) t rest := by
  obtain ⟨enough, h⟩ := h
  refine of_succ ⟨enough, fun n hn => ?_⟩
  show (do let (t, rest) ← read n .type xs; return (t, rest.drop 1)) = _
  rw [h n hn]
  rfl

theorem object (h : ReadsTo (.fields .members) xs t (x :: rest)) :
    ReadsTo .primary (.sign '\x7b' :: xs) (.object t) rest := by
  obtain ⟨enough, h⟩ := h
  refine of_succ ⟨enough, fun n hn => ?_⟩
  show (do
    let (t, rest) ← read n (.fields .members) xs
    return (Tree.object t, rest.drop 1)) = _
  rw [h n hn]
  rfl

theorem operand (h : ReadsTo .primary xs t rest) :
    ReadsTo .operand xs (arrays t rest).1 (arrays t rest).2 := by
  obtain ⟨enough, h⟩ := h
  refine of_succ ⟨enough, fun n hn => ?_⟩
  show readOperand (read n) xs = _
  rw [readOperand, h n hn]
  rfl

theorem one (h : ReadsTo .operand xs t rest) (hrest : rest.head? ≠ some (.sign '|')) :
    ReadsTo .union xs t rest := by
  obtain ⟨enough, h⟩ := h
  refine of_succ ⟨enough, fun n hn => ?_⟩
  show readUnion (read n) xs = _
  rw [readUnion, h n hn]
  exact if_neg hrest

theorem bar (ht : ReadsTo .operand xs t (.sign '|' :: ys)) (hu : ReadsTo .union ys u rest) :
    ReadsTo .union xs (t.join u) rest := by
  obtain ⟨l, ht⟩ := ht
  obtain ⟨m, hu⟩ := hu
  refine of_succ ⟨max l m, fun n hn => ?_⟩
  show readUnion (read n) xs = _
  rw [readUnion, ht n (by omega)]
  show (do let (u, rest) ← read n .union ys; return (t.join u, rest)) = _
  rw [hu n (by omega)]
  rfl

theorem union (hxs : startsArrow xs = false) (h : ReadsTo .union xs t rest) :
    ReadsTo .type xs t rest := by
  obtain ⟨enough, h⟩ := h
  refine of_succ ⟨enough, fun n hn => ?_⟩
  show readType (read n) xs = _
  rw [readType, hxs, h n hn]
  rfl

theorem arrow {zs : List Token} (hxs : startsArrow (x :: xs) = true)
    (ht : ReadsTo (.fields .parameters) xs t (y :: .arrow :: zs)) (hu : ReadsTo .type zs u rest) :
    ReadsTo .type (x :: xs) (.arrow t u) rest := by
  obtain ⟨l, ht⟩ := ht
  obtain ⟨m, hu⟩ := hu
  refine of_succ ⟨max l m, fun n hn => ?_⟩
  show readType (read n) (x :: xs) = _
  rw [readType, if_pos hxs, List.drop_one, List.tail_cons, ht n (by omega)]
  show (do let (u, rest) ← read n .type zs; return (Tree.arrow t u, rest)) = _
  rw [hu n (by omega)]
  rfl

theorem last {k : ListKind} {l : Label} (hl : readLabel xs = some (l, x :: ys))
    (ht : ReadsTo .type ys t rest) (hrest : rest.head? ≠ some (.sign k.separator)) :
    ReadsTo (.series k) xs (.field l t .nil) rest := by
  obtain ⟨enough, ht⟩ := ht
  refine of_succ ⟨enough, fun n hn => ?_⟩
  show readSeries (read n) k xs = _
  rw [readSeries, hl]
  simp only [Option.bind_eq_bind, Option.bind_some, List.drop_succ_cons, List.drop_zero, ht n hn]
  exact if_neg hrest

theorem more {k : ListKind} {l : Label} {zs : List Token} (hl : readLabel xs = some (l, x :: ys))
    (ht : ReadsTo .type ys t (.sign k.separator :: zs)) (hu : ReadsTo (.series k) zs u rest) :
    ReadsTo (.series k) xs (.field l t u) rest := by
  obtain ⟨m, ht⟩ := ht
  obtain ⟨m', hu⟩ := hu
  refine of_succ ⟨max m m', fun n hn => ?_⟩
  show readSeries (read n) k xs = _
  rw [readSeries, hl]
  simp only [Option.bind_eq_bind, Option.bind_some, List.drop_succ_cons, List.drop_zero,
    ht n (by omega), List.head?_cons, if_true, hu n (by omega)]
  rfl

theorem none {k : ListKind} (h : rest.head? = some (.sign k.closing)) :
    ReadsTo (.fields k) rest .nil rest :=
  of_succ ⟨0, fun _ _ => if_pos h⟩

theorem series {k : ListKind} (hxs : xs.head? ≠ some (.sign k.closing))
    (h : ReadsTo (.series k) xs t rest) : ReadsTo (.fields k) xs t rest := by
  obtain ⟨enough, h⟩ := h
  exact of_succ ⟨enough, fun n hn => (if_neg hxs).trans (h n hn)⟩

end ReadsTo

/-! ## Everything that can be derived is read -/

/-- What may come behind a type. -/
def behindType : List Char := [')', '>', ',', ';', '\x7d']

/-- What may come behind a primary type. -/
def behindPrimary : List Char := '[' :: '|' :: behindType

/-- The tokens end here, or one of these signs comes next. -/
def Follows (cs : List Char) (rest : List Token) : Prop :=
  ∀ x, rest.head? = some x → ∃ c ∈ cs, x = .sign c

theorem follows_nil (cs : List Char) : Follows cs [] := by
  intro x hx
  cases hx

theorem follows_cons {cs : List Char} {c : Char} (h : c ∈ cs) (rest : List Token) :
    Follows cs (.sign c :: rest) := by
  intro x hx
  cases hx
  exact ⟨c, h, rfl⟩

theorem Follows.mono {cs ds : List Char} {rest : List Token} (h : Follows cs rest)
    (hsub : cs ⊆ ds) : Follows ds rest := by
  intro x hx
  obtain ⟨c, hc, rfl⟩ := h x hx
  exact ⟨c, hsub hc, rfl⟩

theorem Follows.head?_ne {cs : List Char} {rest : List Token} (h : Follows cs rest) {d : Char}
    (hd : d ∉ cs) : rest.head? ≠ some (.sign d) := by
  intro hrest
  obtain ⟨c, hc, he⟩ := h _ hrest
  exact hd (Token.sign.inj he ▸ hc)

theorem behindType_subset : behindType ⊆ behindPrimary := by
  intro c hc
  exact List.mem_cons_of_mem _ (List.mem_cons_of_mem _ hc)

theorem arrays_of_follows {rest : List Token} (h : rest.head? ≠ some (.sign '[')) (t : Tree) :
    arrays t rest = (t, rest) := by
  match rest with
  | [] => rfl
  | [x] => rfl
  | x :: y :: rest =>
    have hx : x ≠ .sign '[' := fun he => h (congrArg some he)
    rw [arrays, if_neg hx]

/-- A leaf is a word or a string literal. -/
theorem IsLeaf.eq {x : Token} (h : IsLeaf x) : (∃ w, x = .word w) ∨ ∃ q, x = .quote q := by
  cases h with
  | name => exact Or.inl ⟨_, rfl⟩
  | literal s =>
    cases s with
    | str s => exact Or.inr ⟨_, rfl⟩
    | _ => exact Or.inl ⟨_, rfl⟩

theorem startsParameters_word {w : String} {rest : List Token} (h : Follows behindPrimary rest) :
    startsParameters (.word w :: rest) = false := by
  cases rest with
  | nil => rfl
  | cons x rest =>
    obtain ⟨c, hc, rfl⟩ := h x rfl
    have hcolon : c ≠ ':' := fun he => absurd (he ▸ hc) (by decide)
    have hmark : c ≠ '?' := fun he => absurd (he ▸ hc) (by decide)
    simp [startsParameters, hcolon, hmark]

/-- Behind an opening parenthesis, a type is told from parameters by its first two tokens. -/
theorem startsParameters_eq_false {s : Symbol} {xs : List Token} {t : Tree}
    (h : Derives s xs t) (hs : s ∈ [.primary, .operand, .union, .type]) {rest : List Token}
    (hrest : Follows behindPrimary rest) : startsParameters (xs ++ rest) = false := by
  induction h generalizing rest with
  | leaf h =>
    -- a word is a parameter's name only in front of a colon or a question mark
    rcases h.eq with ⟨w, rfl⟩ | ⟨q, rfl⟩
    · exact startsParameters_word hrest
    · rfl
  | promise => rfl
  | parentheses => rfl
  | object => rfl
  | primary _ ih => exact ih (by simp) hrest
  | array _ ih =>
    rw [List.append_assoc]
    exact ih (by simp) (follows_cons (by decide) _)
  | operand _ ih => exact ih (by simp) hrest
  | bar _ _ ih =>
    rw [List.append_assoc]
    exact ih (by simp) (follows_cons (by decide) _)
  | union _ ih => exact ih (by simp) hrest
  | arrow => rfl
  | last => simp at hs
  | more => simp at hs
  | none => simp at hs
  | series => simp at hs

/-- A union does not start with a parameter list. -/
theorem startsArrow_eq_false {s : Symbol} {xs : List Token} {t : Tree} (h : Derives s xs t)
    (hs : s ∈ [.primary, .operand, .union]) (rest : List Token) :
    startsArrow (xs ++ rest) = false := by
  induction h generalizing rest with
  | leaf h => rcases h.eq with ⟨w, rfl⟩ | ⟨q, rfl⟩ <;> rfl
  | promise => rfl
  | @parentheses xs t h =>
    -- only a type stands behind this parenthesis, and no type starts like a parameter list
    have hclosing : Follows behindPrimary (.sign ')' :: rest) := follows_cons (by decide) rest
    have hinner := startsParameters_eq_false h (by simp) hclosing
    show startsParameters (xs ++ [.sign ')'] ++ rest) = false
    rwa [List.append_assoc]
  | object => rfl
  | primary _ ih => exact ih (by simp) rest
  | array _ ih =>
    rw [List.append_assoc]
    exact ih (by simp) _
  | operand _ ih => exact ih (by simp) rest
  | bar _ _ ih =>
    rw [List.append_assoc]
    exact ih (by simp) _
  | _ => simp at hs

/-- A label is read. -/
theorem readLabel_tokens {k : ListKind} {l : Label} (hl : k.Admits l) (rest : List Token) :
    readLabel (l.tokens ++ .sign ':' :: rest) = some (l, .sign ':' :: rest) := by
  cases hl with
  | name h optional => cases optional <;> rfl
  | literal s optional => cases optional <;> rfl
  | index => rfl

/-- A parameter list starts like one. -/
theorem startsParameters_of_fields {xs : List Token} {t : Tree}
    (h : Derives (.fields .parameters) xs t) (rest : List Token) :
    startsParameters (xs ++ .sign ')' :: rest) = true := by
  -- parameters have names only, and a colon or a mark stands behind a name
  have hlabel : ∀ {l : Label} {ys : List Token}, ListKind.parameters.Admits l →
      startsParameters (l.tokens ++ .sign ':' :: ys) = true := by
    intro l ys hl
    cases hl with
    | name h optional => cases optional <;> rfl
  cases h with
  | none => rfl
  | series h =>
    cases h with
    | last hl =>
      rw [List.append_assoc]
      exact hlabel hl
    | more hl =>
      rw [List.append_assoc]
      exact hlabel hl

/-- What reading has to give for what is derived: brackets behind an operand belong to it. -/
def IsRead (s : Symbol) (xs : List Token) (t : Tree) : Prop :=
  match s with
  | .primary => ∀ rest, Follows behindPrimary rest → ReadsTo .primary (xs ++ rest) t rest
  | .operand => ∀ rest, Follows behindPrimary rest →
    ReadsTo .operand (xs ++ rest) (arrays t rest).1 (arrays t rest).2
  | .union => ∀ rest, Follows behindType rest → ReadsTo .union (xs ++ rest) t rest
  | .type => ∀ rest, Follows behindType rest → ReadsTo .type (xs ++ rest) t rest
  | .series k => ∀ rest, Follows [k.closing] rest → ReadsTo (.series k) (xs ++ rest) t rest
  | .fields k => ∀ rest, rest.head? = some (.sign k.closing) →
    ReadsTo (.fields k) (xs ++ rest) t rest

theorem closing_mem (k : ListKind) : k.closing ∈ behindType := by
  cases k <;> decide

theorem separator_mem (k : ListKind) : k.separator ∈ behindType := by
  cases k <;> decide

/-- An entry does not start like the end of a list. -/
theorem head?_series {k : ListKind} {xs : List Token} {t : Tree} (h : Derives (.series k) xs t)
    (rest : List Token) : (xs ++ rest).head? ≠ some (.sign k.closing) := by
  -- every label starts with a token that closes nothing
  have hlabel : ∀ {l : Label} {ys : List Token}, k.Admits l →
      (l.tokens ++ ys).head? ≠ some (.sign k.closing) := by
    intro l ys hl
    cases hl with
    | name h optional => cases optional <;> simp [Label.tokens]
    | literal s optional => cases optional <;> simp [Label.tokens]
    | index => simp [Label.tokens, ListKind.closing]
  cases h with
  | last hl =>
    rw [List.append_assoc]
    exact hlabel hl
  | more hl =>
    rw [List.append_assoc]
    exact hlabel hl

/-- **What can be derived is read**, up to a sign that may come behind it. -/
theorem isRead {s : Symbol} {xs : List Token} {t : Tree} (h : Derives s xs t) : IsRead s xs t := by
  induction h with
  | leaf h =>
    intro rest hrest
    rcases h.eq with ⟨w, rfl⟩ | ⟨q, rfl⟩
    · exact .word (hrest.head?_ne (by decide))
    · exact .quote
  | @promise xs t _ ih =>
    intro rest _
    show ReadsTo .primary (.word "Promise" :: .sign '<' :: (xs ++ [.sign '>'] ++ rest)) _ rest
    rw [List.append_assoc]
    exact .promise (ih _ (follows_cons (by decide) rest))
  | @parentheses xs t _ ih =>
    intro rest _
    show ReadsTo .primary (.sign '(' :: (xs ++ [.sign ')'] ++ rest)) _ rest
    rw [List.append_assoc]
    exact .parentheses (ih _ (follows_cons (by decide) rest))
  | @object xs t _ ih =>
    intro rest _
    show ReadsTo .primary (.sign '\x7b' :: (xs ++ [.sign '\x7d'] ++ rest)) _ rest
    rw [List.append_assoc]
    exact .object (ih _ rfl)
  | primary _ ih =>
    intro rest hrest
    exact .operand (ih rest hrest)
  | @array xs t _ ih =>
    intro rest hrest
    -- the type of the items is read with these brackets, and with those that may follow
    have hread := ih (.sign '[' :: .sign ']' :: rest) (follows_cons (by decide) _)
    rw [arrays, if_pos rfl] at hread
    rw [List.append_assoc]
    exact hread
  | operand _ ih =>
    intro rest hrest
    -- no brackets are left over: they would have been read with the operand
    have hread := ih rest (hrest.mono behindType_subset)
    rw [arrays_of_follows (hrest.head?_ne (by decide))] at hread
    exact .one hread (hrest.head?_ne (by decide))
  | @bar xs ys t u _ _ iht ihu =>
    intro rest hrest
    have hread := iht (.sign '|' :: (ys ++ rest)) (follows_cons (by decide) _)
    rw [arrays_of_follows (by simp)] at hread
    rw [List.append_assoc]
    exact .bar hread (ihu rest hrest)
  | union h ih =>
    intro rest hrest
    exact .union (startsArrow_eq_false h (by simp) rest) (ih rest hrest)
  | @arrow xs ys t u ht _ iht ihu =>
    intro rest hrest
    -- reading goes into the parameter list, stops at its parenthesis and goes on at the result
    have hstart := startsParameters_of_fields ht (.arrow :: (ys ++ rest))
    have hread := iht (.sign ')' :: .arrow :: (ys ++ rest)) rfl
    show ReadsTo .type (.sign '(' :: (xs ++ .sign ')' :: .arrow :: ys ++ rest)) _ rest
    rw [List.append_assoc]
    exact .arrow hstart hread (ihu rest hrest)
  | @last k l xs t hl _ ih =>
    intro rest hrest
    rw [List.append_assoc]
    refine .last (readLabel_tokens hl (xs ++ rest)) (ih rest (hrest.mono ?_)) (hrest.head?_ne ?_)
    · exact List.cons_subset.mpr ⟨closing_mem k, List.nil_subset _⟩
    · cases k <;> decide
  | @more k l xs ys t u hl _ _ iht ihu =>
    intro rest hrest
    have hread := iht (.sign k.separator :: (ys ++ rest)) (follows_cons (separator_mem k) _)
    rw [List.append_assoc, List.cons_append, List.append_assoc]
    exact .more (readLabel_tokens hl _) hread (ihu rest hrest)
  | none =>
    intro rest hrest
    exact .none hrest
  | series h ih =>
    intro rest hrest
    -- the end of the list is not taken for an empty one
    refine .series (head?_series h rest) (ih rest (fun x hx => ?_))
    rw [hrest] at hx
    exact ⟨_, List.mem_singleton_self _, (Option.some.inj hx).symm⟩

/-- **The grammar is unambiguous**: a type has one tree. -/
theorem Derives.unique {xs : List Token} {t u : Tree} (ht : Derives .type xs t)
    (hu : Derives .type xs u) : t = u :=
  (isRead ht [] (follows_nil _)).unique (isRead hu [] (follows_nil _))

end Typings.TypeSyntax
