import Typings.Json.Display

/-!
# The inside of a string literal

However a character is written inside a string literal, a quote or a backslash stands there
only behind another backslash. So whatever reads literals by this rule reads a literal to its
last quote, and no further.

The rule is given as a grammar for the inside of a literal, in which a backslash takes the next
character with it. Each way to write a character is in it, and the grammar is closed under putting
texts behind each other, so the whole inside is.
-/

namespace Typings.Json

/-- The inside of a string literal: characters that mean nothing there, and characters behind a
backslash. -/
inductive LiteralBody : List Char → Prop
  | nil : LiteralBody []
  | char {c : Char} {s : List Char} (hquote : c ≠ '"') (hslash : c ≠ '\\') (h : LiteralBody s) :
    LiteralBody (c :: s)
  | escape (c : Char) {s : List Char} (h : LiteralBody s) : LiteralBody ('\\' :: c :: s)

namespace LiteralBody

theorem append {s t : List Char} (hs : LiteralBody s) (ht : LiteralBody t) :
    LiteralBody (s ++ t) := by
  induction hs with
  | nil => exact ht
  | char hquote hslash _ ih => exact .char hquote hslash ih
  | escape c _ ih => exact .escape c ih

theorem of_forall {s : List Char} (h : ∀ c ∈ s, c ≠ '"' ∧ c ≠ '\\') : LiteralBody s := by
  induction s with
  | nil => exact .nil
  | cons c s ih =>
    obtain ⟨⟨hquote, hslash⟩, hs⟩ := List.forall_mem_cons.mp h
    exact .char hquote hslash (ih hs)

theorem flatMap {f : Char → List Char} (hf : ∀ c, LiteralBody (f c)) (s : List Char) :
    LiteralBody (s.flatMap f) := by
  induction s with
  | nil => exact .nil
  | cons c s ih =>
    rw [List.flatMap_cons]
    exact (hf c).append ih

end LiteralBody

theorem hexDigit_plain : ∀ n < 16, Text.hexDigit n ≠ '"' ∧ Text.hexDigit n ≠ '\\' := by
  decide

theorem hexDigits_plain (width n : Nat) :
    ∀ c ∈ Text.hexDigits width n, c ≠ '"' ∧ c ≠ '\\' := by
  induction width generalizing n with
  | zero => intro c hc; exact absurd hc (by simp [Text.hexDigits])
  | succ width ih =>
    intro c hc
    rcases List.mem_append.mp hc with hc | hc
    · exact ih (n / 16) c hc
    · rw [List.mem_singleton.mp hc]
      exact hexDigit_plain (n % 16) (Nat.mod_lt n (by decide))

theorem literalBody_unitEscape (n : Nat) : LiteralBody (unitEscape n) :=
  .escape 'u' (.of_forall (hexDigits_plain 4 n))

/-- **However a character is written inside a literal, it does not end it.** -/
theorem literalBody_literalChar (c : Char) : LiteralBody (literalChar c) := by
  -- the two characters that would mean something get a backslash
  by_cases hquote : c = '"'
  · subst hquote
    exact .escape _ .nil
  by_cases hslash : c = '\\'
  · subst hslash
    exact .escape _ .nil
  unfold literalChar
  rw [if_neg hquote, if_neg hslash]
  -- five characters have escapes of one letter
  iterate 5
    split
    · exact .escape _ .nil
  split
  · exact .char hquote hslash .nil
  split
  · exact literalBody_unitEscape _
  · exact (literalBody_unitEscape _).append (literalBody_unitEscape _)

/-- **A literal is its inside between two quotes.** -/
theorem toList_stringLiteral (s : String) :
    ∃ body, LiteralBody body ∧ (stringLiteral s).toList = '"' :: (body ++ ['"']) := by
  refine ⟨s.toList.flatMap literalChar, .flatMap literalBody_literalChar s.toList, ?_⟩
  rw [stringLiteral, String.toList_ofList]
  rfl

end Typings.Json
