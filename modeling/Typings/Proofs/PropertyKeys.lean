import Mathlib.Data.List.Basic
import Typings.Expression.OfNode
import Typings.Proofs.Scanning.Decoding
import Typings.Text.Unicode

/-!
# What a property key denotes

A key in an object type is a name token or a string literal. White space around a token means
nothing, and line ends are white space, so a name token denotes its own characters and no more.

The key of a property denotes the name of the property, with one exception. A newline behind an
identifier is let through, and then the name stands bare: its key denotes the identifier without
the newline. So two properties are denoted by the same key exactly if one of them has the name of
the other with a newline behind it, and that name is an identifier.

A key is written in two ways, as the name itself or as a literal, and the two are told apart
by their first character. Keys have to be compared with text behind them too, as they stand in
a member: there a bare key ends at the first mark, and a literal ends where reading it ends. So
members of different names are different texts (`eq_of_member`).
-/

namespace Typings.PropertyKey

/-! ## Reading a key -/

/-- White space and line ends, which only part tokens. -/
def layout : Text.CodeRanges := [
  (0x09, 0x0D), (0x20, 0x20), (0xA0, 0xA0), (0x1680, 0x1680), (0x2000, 0x200A), (0x2028, 0x2029),
  (0x202F, 0x202F), (0x205F, 0x205F), (0x3000, 0x3000), (0xFEFF, 0xFEFF)]

/-- A text without the white space around it. -/
def token (s : List Char) : List Char :=
  ((s.dropWhile layout.covers).reverse.dropWhile layout.covers).reverse

/-- Can a name token start with `c`? -/
def startsName (c : Char) : Bool := Text.isLetter c || c = '$' || c = '_'

/-- Is a text a name token: letters, digits, dollar signs and underscores, and no digit first? -/
def isName : List Char → Bool
  | [] => false
  | c :: s => startsName c && s.all fun c => startsName c || c.isDigit

/-- The name that a key denotes: what a string literal stands for, or a name token itself. -/
def denoted? (key : String) : Option String :=
  let t := token key.toList
  if t.head? = some '"' then Json.ofLiteral? (String.ofList t)
  else if isName t then some (String.ofList t)
  else none

/-- What stands between white space is the token, whatever is inside it. -/
theorem token_append {w behind : List Char} {c d : Char} (hfirst : w.head? = some c)
    (hc : layout.covers c = false) (hlast : w.getLast? = some d) (hd : layout.covers d = false)
    (hbehind : ∀ b ∈ behind, layout.covers b = true) : token (w ++ behind) = w := by
  obtain ⟨s, rfl⟩ : ∃ s, w = c :: s := by
    cases w with
    | nil => cases hfirst
    | cons c' s => exact ⟨s, by rw [Option.some.inj hfirst]⟩
  obtain ⟨front, hfront⟩ := List.getLast?_eq_some_iff.mp hlast
  -- neither end of the token is white space, so nothing of it is cut off
  have hleft : ((c :: s) ++ behind).dropWhile layout.covers = (c :: s) ++ behind := by
    rw [List.cons_append, List.dropWhile_cons_of_neg (by rw [hc]; exact Bool.false_ne_true)]
  have hright : ((c :: s) ++ behind).reverse.dropWhile layout.covers = (c :: s).reverse := by
    rw [List.reverse_append, List.dropWhile_append_of_pos (by simpa using hbehind), hfront,
      List.reverse_concat,
      List.dropWhile_cons_of_neg (by rw [hd]; exact Bool.false_ne_true)]
  rw [token, hleft, hright, List.reverse_reverse]

/-! ## Identifiers are name tokens -/

theorem startsName_of_isStart {c : Char} (h : isStart c = true) : startsName c = true := by
  unfold isStart at h
  unfold startsName
  rcases Bool.or_eq_true_iff.mp h with h | h
  · rcases Bool.or_eq_true_iff.mp h with h | h
    · rw [Text.isLetter_of_isAlpha h]
      rfl
    · simp [h]
  · simp [h]

theorem isName_of_isIdentifier {s : List Char} (h : isIdentifier s = true) : isName s = true := by
  cases s with
  | nil => cases h
  | cons c s =>
    obtain ⟨hc, hs⟩ := Bool.and_eq_true_iff.mp h
    -- digits may stand behind the first character of either
    have hrest : (s.all fun c => startsName c || c.isDigit) = true := by
      refine List.all_eq_true.mpr fun d hd => ?_
      have hpart : isPart d = true := List.all_eq_true.mp hs d hd
      rcases Bool.or_eq_true_iff.mp hpart with hd | hd
      · rw [startsName_of_isStart hd]
        rfl
      · rw [hd, Bool.or_true]
    rw [isName, startsName_of_isStart hc, hrest]
    rfl

/-- What an identifier is made of stands in ASCII, between the dollar sign and the letters. -/
theorem toNat_of_isPart {c : Char} (h : isPart c = true) : 0x24 ≤ c.toNat ∧ c.toNat ≤ 0x7A := by
  have hsign : ∀ d : Char, 0x24 ≤ d.toNat → d.toNat ≤ 0x7A → decide (c = d) = true →
      0x24 ≤ c.toNat ∧ c.toNat ≤ 0x7A := by
    intro d hl hu hc
    rw [of_decide_eq_true hc]
    exact ⟨hl, hu⟩
  have hrange : ∀ lo hi : Char, 0x24 ≤ lo.toNat → hi.toNat ≤ 0x7A → lo.val ≤ c.val →
      c.val ≤ hi.val → 0x24 ≤ c.toNat ∧ c.toNat ≤ 0x7A := by
    intro lo hi hlo hhi hl hu
    have hl : lo.toNat ≤ c.toNat := hl
    have hu : c.toNat ≤ hi.toNat := hu
    omega
  -- letters of either case, the two signs, and digits
  unfold isPart isStart at h
  rcases Bool.or_eq_true_iff.mp h with h | hdigit
  · rcases Bool.or_eq_true_iff.mp h with h | hdollar
    · rcases Bool.or_eq_true_iff.mp h with halpha | hline
      · have halpha : (c.isUpper || c.isLower) = true := halpha
        rcases Bool.or_eq_true_iff.mp halpha with hupper | hlower
        · have ⟨hl, hu⟩ : 'A'.val ≤ c.val ∧ c.val ≤ 'Z'.val := of_decide_eq_true hupper
          exact hrange 'A' 'Z' (by decide) (by decide) hl hu
        · have hlower : (decide ('a'.val ≤ c.val) && decide (c.val ≤ 'z'.val)) = true := hlower
          obtain ⟨hl, hu⟩ := Bool.and_eq_true_iff.mp hlower
          exact hrange 'a' 'z' (by decide) (by decide) (of_decide_eq_true hl) (of_decide_eq_true hu)
      · exact hsign '_' (by decide) (by decide) hline
    · exact hsign '$' (by decide) (by decide) hdollar
  · have hdigit : (decide ('0'.val ≤ c.val) && decide (c.val ≤ '9'.val)) = true := hdigit
    obtain ⟨hl, hu⟩ := Bool.and_eq_true_iff.mp hdigit
    exact hrange '0' '9' (by decide) (by decide) (of_decide_eq_true hl) (of_decide_eq_true hu)

theorem covers_of_isPart {c : Char} (h : isPart c = true) : layout.covers c = false := by
  have hrange := toNat_of_isPart h
  rw [Text.CodeRanges.covers, List.any_eq_false]
  intro r hr
  simp only [layout, List.mem_cons, List.not_mem_nil, or_false] at hr
  simp only [Bool.and_eq_true, decide_eq_true_eq]
  rcases hr with rfl | rfl | rfl | rfl | rfl | rfl | rfl | rfl | rfl | rfl <;> omega

/-- **An identifier denotes itself**, with white space behind it or without. -/
theorem denoted?_identifier {w : String} (hw : isIdentifier w.toList = true)
    {behind : List Char} (hbehind : ∀ b ∈ behind, layout.covers b = true) :
    denoted? (String.ofList (w.toList ++ behind)) = some w := by
  obtain ⟨c, s, hs⟩ : ∃ c s, w.toList = c :: s := by
    cases hw' : w.toList with
    | nil =>
      rw [hw'] at hw
      cases hw
    | cons c s => exact ⟨c, s, rfl⟩
  have hparts := isPart_of_isIdentifier hw
  have hhead : w.toList.head? = some c := by rw [hs]; rfl
  have hne : w.toList ≠ [] := by simp [hs]
  have hfirst : isPart c = true := hparts c (List.mem_of_head? hhead)
  have hlast : isPart (w.toList.getLast hne) = true := hparts _ (List.getLast_mem hne)
  -- the name starts and ends with a letter or sign, so no white space of it is cut off
  have htoken : token (w.toList ++ behind) = w.toList :=
    token_append hhead (covers_of_isPart hfirst) (List.getLast?_eq_some_getLast hne)
      (covers_of_isPart hlast) hbehind
  -- nor does it start like a literal
  have hquote : ¬ w.toList.head? = some '"' := by
    intro hc
    have hc : c = '"' := Option.some.inj (hhead.symm.trans hc)
    rw [hc] at hfirst
    exact absurd hfirst (by decide)
  rw [denoted?, String.toList_ofList, htoken]
  rw [if_neg hquote, if_pos (isName_of_isIdentifier hw), String.ofList_toList]

/-- **A string literal denotes the text that it stands for.** -/
theorem denoted?_stringLiteral (name : String) :
    denoted? (Json.stringLiteral name) = some name := by
  have hread := Json.ofLiteral?_stringLiteral name
  obtain ⟨body, -, hbody⟩ := Json.literalBody_of_ofLiteral? hread
  have hquote : layout.covers '"' = false := by decide
  have hhead : (Json.stringLiteral name).toList.head? = some '"' := by rw [hbody]; rfl
  have hlast : (Json.stringLiteral name).toList.getLast? = some '"' := by
    rw [hbody, ← List.cons_append, List.getLast?_concat]
  -- a literal has quotes at both ends
  have htoken : token (Json.stringLiteral name).toList = (Json.stringLiteral name).toList := by
    have hnone : ∀ b ∈ ([] : List Char), layout.covers b = true := nofun
    have h := token_append hhead hquote hlast hquote hnone
    rwa [List.append_nil] at h
  rw [denoted?, htoken]
  rw [if_pos hhead, String.ofList_toList, hread]

/-! ## The key of a property -/

/-- The name is a line: an identifier with a newline behind it. -/
def IsLine (name : String) : Prop := ∃ w, isIdentifier w.toList = true ∧ name = w ++ "\n"

theorem dropNewline_concat (s : List Char) : dropNewline (s ++ ['\n']) = s := by
  rw [dropNewline, if_pos List.getLast?_concat, List.dropLast_concat]

theorem render_line {w : String} (hw : isIdentifier w.toList = true) :
    render (w ++ "\n") = String.ofList (w.toList ++ ['\n']) := by
  have hname : (w ++ "\n").toList = w.toList ++ ['\n'] := String.toList_append
  rw [render, hname, dropNewline_concat, if_pos hw, ← hname, String.ofList_toList]

/-- A name that is no line stands bare exactly if it is an identifier. -/
theorem render_of_not_isLine {name : String} (h : ¬ IsLine name) :
    render name =
      if isIdentifier name.toList then name else Json.stringLiteral name := by
  unfold render
  by_cases hlast : name.toList.getLast? = some '\n'
  · -- a newline at the end is neither let through nor part of an identifier
    obtain ⟨s, hs⟩ := List.getLast?_eq_some_iff.mp hlast
    have hdrop : ¬ isIdentifier (dropNewline name.toList) = true := by
      intro hid
      rw [hs, dropNewline_concat] at hid
      refine h ⟨String.ofList s, by rwa [String.toList_ofList], String.toList_inj.mp ?_⟩
      rw [hs, String.toList_append, String.toList_ofList]
      rfl
    have hbare : ¬ isIdentifier name.toList = true := by
      intro hid
      have hpart := isPart_of_isIdentifier hid '\n' (List.mem_of_getLast? hlast)
      exact absurd hpart (by decide)
    rw [if_neg hdrop, if_neg hbare]
  · rw [dropNewline, if_neg hlast]

theorem denoted?_render_line {w : String} (hw : isIdentifier w.toList = true) :
    denoted? (render (w ++ "\n")) = some w := by
  have hlayout : ∀ b ∈ ['\n'], layout.covers b = true := by
    intro b hb
    rw [List.mem_singleton.mp hb]
    decide
  rw [render_line hw]
  exact denoted?_identifier hw hlayout

/-- **The key of a name that is no line denotes that name.** -/
theorem denoted?_render_of_not_isLine {name : String} (h : ¬ IsLine name) :
    denoted? (render name) = some name := by
  rw [render_of_not_isLine h]
  split
  case isTrue hid =>
    have hnone : ∀ b ∈ ([] : List Char), layout.covers b = true := nofun
    have hkey := denoted?_identifier hid hnone
    rwa [List.append_nil, String.ofList_toList] at hkey
  case isFalse => exact denoted?_stringLiteral name

/-! ## Members -/

/-- A key is the name itself, in which there is no mark, or it is a literal. -/
theorem render_bare_or_literal (name : String) :
    render name = name ∧ name.toList ≠ [] ∧ (∀ c ∈ name.toList, isPart c = true ∨ c = '\n') ∨
      render name = Json.stringLiteral name := by
  unfold render
  split
  case isTrue hid =>
    have hne : name.toList ≠ [] := by
      intro hnil
      rw [hnil] at hid
      exact absurd hid (by decide)
    refine Or.inl ⟨rfl, hne, fun c hc => ?_⟩
    have hparts := isPart_of_isIdentifier hid
    -- the one character that is not looked at is a newline at the end
    unfold dropNewline at hparts
    split at hparts
    case isTrue hlast =>
      obtain ⟨s, hs⟩ := List.getLast?_eq_some_iff.mp hlast
      rw [hs, List.dropLast_concat] at hparts
      rw [hs] at hc
      rcases List.mem_append.mp hc with hc | hc
      · exact Or.inl (hparts c hc)
      · exact Or.inr (List.mem_singleton.mp hc)
    case isFalse => exact Or.inl (hparts c hc)
  case isFalse => exact Or.inr rfl

/-- Can `c` stand behind the key of a member? -/
def isMark (c : Char) : Bool := c = '?' || c = ':'

/-- A key that is the name itself ends at the first mark behind it. -/
theorem takeWhile_bare {s x : List Char} (hs : ∀ c ∈ s, isPart c = true ∨ c = '\n') {m : Char}
    (hx : x.head? = some m) (hm : isMark m = true) :
    (s ++ x).takeWhile (fun c => !isMark c) = s := by
  -- no character of an identifier is a mark, nor is a newline
  have hmark : ∀ c ∈ s, (!isMark c) = true := by
    intro c hc
    rw [Bool.not_eq_true']
    by_contra hmark
    rw [Bool.not_eq_false, isMark, Bool.or_eq_true, decide_eq_true_eq, decide_eq_true_eq] at hmark
    rcases hs c hc with h | h <;> rcases hmark with hc | hc <;> rw [hc] at h <;>
      exact absurd h (by decide)
  obtain ⟨y, rfl⟩ : ∃ y, x = m :: y := by
    cases x with
    | nil => cases hx
    | cons c y => exact ⟨y, by rw [Option.some.inj hx]⟩
  rw [List.takeWhile_append_of_pos hmark, List.takeWhile_cons_of_neg (by simp [hm]),
    List.append_nil]

/-- A key that is the name itself is none that is a literal. -/
theorem bare_ne_literal {s : List Char} (hne : s ≠ [])
    (hs : ∀ c ∈ s, isPart c = true ∨ c = '\n') (name : String) (x y : List Char) :
    s ++ x ≠ (Json.stringLiteral name).toList ++ y := by
  intro h
  obtain ⟨body, -, hbody⟩ :=
    Json.literalBody_of_ofLiteral? (Json.ofLiteral?_stringLiteral name)
  obtain ⟨c, t, rfl⟩ := List.exists_cons_of_ne_nil hne
  rw [hbody] at h
  have hquote : c = '"' := (List.cons.inj h).1
  rcases hs c List.mem_cons_self with hc | hc <;> rw [hquote] at hc <;> exact absurd hc (by decide)

/-- **What starts with the keys of two names, and goes on with a mark, starts with one.** -/
theorem eq_of_render_append {a b : String} {x y : List Char} {m n : Char}
    (hx : x.head? = some m) (hm : isMark m = true) (hy : y.head? = some n) (hn : isMark n = true)
    (h : (render a).toList ++ x = (render b).toList ++ y) : a = b := by
  -- two bare keys end at their marks, two literals at their quotes, and one of each never agree
  rcases render_bare_or_literal a with ⟨ha, hane, hachars⟩ | ha <;>
    rcases render_bare_or_literal b with ⟨hb, hbne, hbchars⟩ | hb <;> rw [ha, hb] at h
  · refine String.toList_inj.mp ?_
    rw [← takeWhile_bare hachars hx hm, h, takeWhile_bare hbchars hy hn]
  · exact absurd h (bare_ne_literal hane hachars b x y)
  · exact absurd h.symm (bare_ne_literal hbne hbchars a y x)
  · have hread := Json.ofLiteral?_stringLiteral a
    obtain ⟨hliteral, -⟩ := Json.eq_of_literals hread (Json.ofLiteral?_stringLiteral b) h
    rw [hliteral, Json.ofLiteral?_stringLiteral] at hread
    exact (Option.some.inj hread).symm

/-- **Members of different names are different texts**, whatever stands behind their keys. -/
theorem eq_of_member {a b : String} {o p : Bool} {s t : Expression}
    (h : Expression.member a o s = Expression.member b p t) : a = b := by
  -- behind the key there is a question mark or a colon
  have hmark : ∀ (o : Bool) (s : Expression),
      ∃ m, ((if o then "?" else "") ++ ": " ++ s.toText).toList.head? = some m ∧
        isMark m = true := by
    intro o s
    cases o
    · exact ⟨':', by simp [String.toList_append], rfl⟩
    · exact ⟨'?', by simp [String.toList_append], rfl⟩
  obtain ⟨m, hx, hm⟩ := hmark o s
  obtain ⟨n, hy, hn⟩ := hmark p t
  refine eq_of_render_append hx hm hy hn ?_
  have htext := congrArg String.toList h
  simpa [Expression.member, String.toList_append, String.append_assoc] using htext

/-! ## Names and keys -/

theorem ne_line (w : String) : w ≠ w ++ "\n" := by
  intro h
  have hlength := congrArg (fun s : String => s.toList.length) h
  simp [String.toList_append] at hlength

/-- No identifier is a line. -/
theorem not_isLine_of_isIdentifier {name : String} (h : isIdentifier name.toList = true) :
    ¬ IsLine name := by
  intro hline
  obtain ⟨w, -, hw⟩ := hline
  have hmem : '\n' ∈ name.toList := by simp [hw, String.toList_append]
  exact absurd (isPart_of_isIdentifier h '\n' hmem) (by decide)

/-- A name is what its key denotes, or that with a newline behind it. -/
theorem eq_or_line (name : String) :
    denoted? (render name) = some name ∨
      ∃ w, isIdentifier w.toList = true ∧ name = w ++ "\n" ∧ denoted? (render name) = some w := by
  by_cases h : IsLine name
  · obtain ⟨w, hw, rfl⟩ := h
    exact Or.inr ⟨w, hw, rfl, denoted?_render_line hw⟩
  · exact Or.inl (denoted?_render_of_not_isLine h)

/-- The keys of two names denote the same name only if one of them has a newline that the other
one has not. -/
theorem denoted?_render_eq {a b : String} (hne : a ≠ b)
    (h : denoted? (render a) = denoted? (render b)) :
    isIdentifier a.toList = true ∧ b = a ++ "\n" ∨
      isIdentifier b.toList = true ∧ a = b ++ "\n" := by
  rcases eq_or_line a with ha | ⟨w, hw, hline, ha⟩
  · rcases eq_or_line b with hb | ⟨v, hv, hline', hb⟩
    · rw [ha, hb] at h
      exact absurd (Option.some.inj h) hne
    · rw [ha, hb] at h
      have hsame : a = v := Option.some.inj h
      exact Or.inl ⟨hsame ▸ hv, hsame ▸ hline'⟩
  · rcases eq_or_line b with hb | ⟨v, hv, hline', hb⟩
    · rw [ha, hb] at h
      have hsame : w = b := Option.some.inj h
      exact Or.inr ⟨hsame ▸ hw, hsame ▸ hline⟩
    · -- two names with the same identifier and a newline are the same
      rw [ha, hb] at h
      have hsame : w = v := Option.some.inj h
      exact absurd (by rw [hline, hline', hsame]) hne

/-- An identifier with a newline has a key that denotes the same as that of the identifier. -/
theorem denoted?_render_concat {w : String} (hw : isIdentifier w.toList = true) :
    denoted? (render w) = denoted? (render (w ++ "\n")) := by
  rw [denoted?_render_line hw, denoted?_render_of_not_isLine (not_isLine_of_isIdentifier hw)]

/--
**Which name the key of a property denotes.**

It is the name of the property, unless that is an identifier with a newline behind it; then it is
the identifier alone. So the keys of two names denote the same name exactly if one of them is an
identifier and the other one is it with a newline; but as texts, members of different names are
never the same.
-/
theorem denoted?_render_iff (name other : String) :
    (denoted? (render name) = some name ↔ ¬ IsLine name) ∧
      (∀ w, isIdentifier w.toList = true → name = w ++ "\n" → denoted? (render name) = some w) ∧
      (name ≠ other → (denoted? (render name) = denoted? (render other) ↔
        isIdentifier name.toList = true ∧ other = name ++ "\n" ∨
          isIdentifier other.toList = true ∧ name = other ++ "\n")) ∧
      ∀ (o p : Bool) (s t : Expression),
        Expression.member name o s = Expression.member other p t → name = other := by
  refine ⟨⟨?_, denoted?_render_of_not_isLine⟩, ?_, fun hne => ⟨denoted?_render_eq hne, ?_⟩,
    fun o p s t => eq_of_member⟩
  -- the key of such a line denotes the identifier, which is shorter
  · intro h hline
    obtain ⟨w, hw, rfl⟩ := hline
    rw [denoted?_render_line hw] at h
    exact ne_line w (Option.some.inj h)
  · intro w hw hname
    rw [hname]
    exact denoted?_render_line hw
  · intro h
    rcases h with ⟨hw, rfl⟩ | ⟨hw, rfl⟩
    · exact denoted?_render_concat hw
    · exact (denoted?_render_concat hw).symm

/-- The key of a name with a newline behind it denotes another name, which two properties of one
object may have then. -/
theorem denoted?_render_newline :
    denoted? (render "tabId\n") ≠ some "tabId\n" ∧
      "tabId" ≠ "tabId\n" ∧ denoted? (render "tabId") = denoted? (render "tabId\n") := by
  have hid : isIdentifier "tabId".toList = true := by decide
  have hname : "tabId\n" = "tabId" ++ "\n" := by decide
  have hne : "tabId" ≠ "tabId" ++ "\n" := ne_line "tabId"
  rw [hname]
  refine ⟨?_, hne, denoted?_render_concat hid⟩
  rw [denoted?_render_line hid]
  exact fun h => hne (Option.some.inj h)

end Typings.PropertyKey
