import Typings.Declaration.File

/-!
# Lines without their comment blocks

The comment blocks of a declaration file can be told from its lines alone: one starts with a
line that is nothing but `/**`, and ends with the next one that is nothing but `*/`. No text
that is documented can move these ends. Every line of a text is written behind a star and a
blank, so it is not an end, whatever it says; and every line of code ends with a sign that the
start of a comment does not end with.

`StripsTo` says that a piece of a file loses its comment blocks, and nothing of what comes
behind it. Pieces can be put together.
-/

namespace Typings

namespace DocComment

/-- Is the line nothing but the start of a comment block? -/
def opens (line : String) : Bool := Text.trim line.toList = "/**".toList

/-- Is the line nothing but the end of a comment block? -/
def closes (line : String) : Bool := Text.trim line.toList = "*/".toList

/-- Lines without their comment blocks, where the first line stands `inside` a block or not. A
line is the start of a block only if there is an end behind it. -/
def stripFrom : Bool → List String → List String
  | _, [] => []
  | true, l :: ls => stripFrom (!closes l) ls
  | false, l :: ls =>
    if opens l && ls.any closes then stripFrom true ls else l :: stripFrom false ls

/-- Lines without their comment blocks. -/
def strip (ls : List String) : List String := stripFrom false ls

example : strip ["a", "  /**", "   * b", "   */", "c", "/**", "d"] = ["a", "c", "/**", "d"] := by
  decide

/-- Without their comment blocks the lines `ls` are `ls'`, whatever comes behind them. -/
def StripsTo (ls ls' : List String) : Prop :=
  ∀ rest, strip (ls ++ rest) = ls' ++ strip rest

namespace StripsTo

theorem nil : StripsTo [] [] := fun _ => rfl

theorem append {as as' bs bs' : List String} (ha : StripsTo as as') (hb : StripsTo bs bs') :
    StripsTo (as ++ bs) (as' ++ bs') := by
  intro rest
  rw [List.append_assoc, ha, hb, List.append_assoc]

theorem strip_eq {ls ls' : List String} (h : StripsTo ls ls') : strip ls = ls' := by
  have hnil := h []
  rwa [List.append_nil, show strip [] = [] from rfl, List.append_nil] at hnil

/-- A line that does not open a block is kept. -/
theorem of_not_opens {l : String} (h : opens l = false) : StripsTo [l] [l] := by
  intro rest
  show stripFrom false (l :: rest) = _
  rw [stripFrom, h]
  rfl

end StripsTo

/-! ## Blocks -/

/-- From inside a block everything up to its end is dropped. -/
theorem stripFrom_true {body : List String} (hbody : ∀ l ∈ body, closes l = false)
    {last : String} (hlast : closes last = true) (rest : List String) :
    stripFrom true (body ++ last :: rest) = strip rest := by
  induction body with
  | nil => rw [List.nil_append, stripFrom, hlast]; rfl
  | cons l body ih =>
    obtain ⟨hl, hbody⟩ := List.forall_mem_cons.mp hbody
    rw [List.cons_append, stripFrom, hl]
    exact ih hbody

/-- A block is dropped. -/
theorem stripsTo_nil {first last : String} {body : List String} (hfirst : opens first = true)
    (hbody : ∀ l ∈ body, closes l = false) (hlast : closes last = true) :
    StripsTo ([first] ++ body ++ [last]) [] := by
  intro rest
  have hany : (body ++ last :: rest).any closes = true :=
    List.any_eq_true.mpr ⟨last, by simp, hlast⟩
  rw [List.append_assoc, List.append_assoc, List.singleton_append, List.singleton_append]
  show stripFrom false (first :: (body ++ last :: rest)) = _
  rw [stripFrom, hfirst, hany]
  exact stripFrom_true hbody hlast rest

/-! ## Trimmed lines -/

theorem trimLeft_append {indent : List Char} (h : indent.all Text.isBlank = true)
    (s : List Char) : Text.trimLeft (indent ++ s) = Text.trimLeft s := by
  unfold Text.trimLeft
  rw [List.dropWhile_append_of_pos (List.all_eq_true.mp h)]

/-- A text that ends with something that is not blank still does after trimming. -/
theorem getLast?_trim {c : Char} (hc : Text.isBlank c = false) (s : List Char) :
    (Text.trim (s ++ [c])).getLast? = some c := by
  have hleft : ∃ s', Text.trimLeft (s ++ [c]) = s' ++ [c] := by
    unfold Text.trimLeft
    rw [List.dropWhile_append]
    split
    · exact ⟨[], by simp [hc]⟩
    · exact ⟨_, rfl⟩
  obtain ⟨s', hs'⟩ := hleft
  unfold Text.trim Text.trimRight
  rw [hs', List.reverse_concat, List.dropWhile_cons_of_neg (by simp [hc]), List.reverse_cons,
    List.getLast?_concat]

/-- Does a text end with a sign that no start of a comment ends with? -/
def endsCode (s : String) : Bool :=
  s.toList.getLast?.any fun c => !Text.isBlank c && c ≠ '*'

/-- **A line that ends as code does not open a block.** -/
theorem opens_append (s : String) {t : String} (ht : endsCode t = true) :
    opens (s ++ t) = false := by
  obtain ⟨c, hlast, hc⟩ := (Option.any_eq_true _ _).mp ht
  obtain ⟨hblank, hstar⟩ : Text.isBlank c = false ∧ c ≠ '*' := by simpa using hc
  obtain ⟨init, hinit⟩ := List.getLast?_eq_some_iff.mp hlast
  have htrim := getLast?_trim hblank (s.toList ++ init)
  rw [List.append_assoc, ← hinit, ← String.toList_append] at htrim
  refine decide_eq_false fun hopens => hstar ?_
  rw [hopens] at htrim
  exact (Option.some.inj htrim).symm

theorem isPrefix_trimRight (s : List Char) : Text.trimRight s <+: s := by
  unfold Text.trimRight
  rw [← List.reverse_suffix, List.reverse_reverse]
  exact List.dropWhile_suffix _

theorem isPrefix_trimLeft {s t : List Char} (h : s <+: t) :
    Text.trimLeft s <+: Text.trimLeft t := by
  obtain ⟨rest, rfl⟩ := h
  unfold Text.trimLeft
  rw [List.dropWhile_append]
  split
  case isTrue hempty => rw [List.isEmpty_iff.mp hempty]; exact List.nil_prefix
  case isFalse => exact List.prefix_append _ rest

/-- **No line of a text closes its block**: a star and a blank stand in front of it. -/
theorem closes_line {indent : List Char} (hindent : indent.all Text.isBlank = true)
    (l : List Char) :
    closes (String.ofList (Text.trimRight (indent ++ " * ".toList ++ l))) = false := by
  refine decide_eq_false fun hcloses => ?_
  rw [String.toList_ofList] at hcloses
  have hprefix : Text.trim (Text.trimRight (indent ++ " * ".toList ++ l)) <+:
      Text.trimLeft (indent ++ " * ".toList ++ l) :=
    (isPrefix_trimRight _).trans (isPrefix_trimLeft (isPrefix_trimRight _))
  have hleft : Text.trimLeft (indent ++ " * ".toList ++ l) = '*' :: ' ' :: l := by
    rw [List.append_assoc, trimLeft_append hindent]
    rfl
  -- behind the star of an end there is a slash
  rw [hcloses, hleft] at hprefix
  simp at hprefix

/-- **A comment block is dropped**, whatever its lines say. -/
theorem stripsTo_block {indent : String} (hindent : indent.toList.all Text.isBlank = true)
    (ls : List (List Char)) : StripsTo (block indent ls) [] := by
  unfold block
  split
  case isTrue => exact StripsTo.nil
  case isFalse =>
    refine stripsTo_nil ?_ ?_ ?_
    · refine decide_eq_true ?_
      rw [String.toList_append, Text.trim, trimLeft_append hindent]
      rfl
    · -- every line between the first and the last one is a line of the text
      intro line hline
      obtain ⟨l, -, rfl⟩ := List.mem_map.mp hline
      exact closes_line hindent l
    · refine decide_eq_true ?_
      rw [String.toList_append, Text.trim, trimLeft_append hindent]
      rfl

/-- A comment is dropped, whatever it describes. -/
theorem stripsTo_render {indent : String} (hindent : indent.toList.all Text.isBlank = true)
    {ps : List Json} {ls : List String} (h : render ps indent = .ok ls) : StripsTo ls [] := by
  obtain ⟨body, -, rfl⟩ := Fault.map_eq_ok.mp h
  exact stripsTo_block hindent body

/-! ## What is written of a description -/

/-- A value that can stand where a description is expected: if it is set, it is a text. -/
def IsDescription (d : Json) : Prop := d.isSet = true → ∃ s, d = .str s

theorem isDescription_iff {d : Json} : IsDescription d ↔ d.isSet = false ∨ d.kind = .str := by
  unfold IsDescription
  rcases d with (_ | _ | _ | _ | _) | _ | _ <;> simp [Json.kind]

instance (d : Json) : Decidable (IsDescription d) := decidable_of_iff _ isDescription_iff.symm

theorem isDescription_str (s : String) : IsDescription (.str s) := fun _ => ⟨s, rfl⟩

theorem isDescription_deprecation {deprecated p : Json} (h : p ∈ deprecation deprecated) :
    IsDescription p := by
  unfold deprecation at h
  split at h
  case h_1 => exact absurd h (by simp)
  case h_2 s => exact List.mem_singleton.mp h ▸ isDescription_str _
  case h_3 => exact List.mem_singleton.mp h ▸ isDescription_str _

theorem bodyLines_ok {ps : List Json} (h : ∀ p ∈ ps, IsDescription p) :
    ∃ ls, bodyLines ps = .ok ls := by
  induction ps with
  | nil => exact ⟨[], rfl⟩
  | cons p ps ih =>
    obtain ⟨hp, hps⟩ := List.forall_mem_cons.mp h
    obtain ⟨ls, hls⟩ := ih hps
    by_cases hset : p.isSet = true
    · obtain ⟨s, rfl⟩ := hp hset
      exact ⟨paragraphLines s.toList ++ ls, by
        simp [bodyLines, hset, hls, bind, Except.bind, pure, Except.pure]⟩
    · exact ⟨ls, by simp [bodyLines, hset, hls]⟩

/-- Descriptions are written as a block, or as nothing. -/
theorem render_ok {ps : List Json} (h : ∀ p ∈ ps, IsDescription p) (indent : String) :
    ∃ ls, render ps indent = .ok (block indent ls) := by
  obtain ⟨ls, hls⟩ := bodyLines_ok h
  exact ⟨ls, by rw [render, hls]; rfl⟩

end DocComment

end Typings
