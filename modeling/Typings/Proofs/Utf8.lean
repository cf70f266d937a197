import Mathlib.Tactic.Common
import Typings.Text.Utf8

/-!
# Texts survive being encoded

Decoding the bytes of a text gives back the text, so every text can be written and no two texts
have the same bytes.

A character has one to four bytes. The first holds its highest bits and promises the bounds of
the others; each of the others adds six bits.

Each of the four lengths is one case, in which the bits are put together again by arithmetic on
the code point; that the bounds of the second byte let exactly these code points through rules out
longer forms and surrogates.
-/

namespace Typings.Text.Utf8

variable {offset bits first seen : Nat} {b byte : UInt8} {done : List Char} {bs : List UInt8}
  {least greatest : Nat} {next : Nat × Nat} {rest : List (Nat × Nat)}

/-! ## One byte -/

theorem decodeFrom_single (h : lead? b.toNat = some ⟨bits, []⟩) :
    decodeFrom offset .idle done (b :: bs) =
      decodeFrom (offset + 1) .idle (Char.ofNat bits :: done) bs := by
  simp only [decodeFrom, State.idle, h]

theorem decodeFrom_first (h : lead? b.toNat = some ⟨bits, next :: rest⟩) :
    decodeFrom offset .idle done (b :: bs) =
      decodeFrom (offset + 1) ⟨bits, next :: rest, b, 1⟩ done bs := by
  simp only [decodeFrom, State.idle, h]

theorem decodeFrom_middle (hleast : least ≤ b.toNat) (hgreatest : b.toNat ≤ greatest) :
    decodeFrom offset ⟨bits, (least, greatest) :: next :: rest, byte, seen⟩ done (b :: bs) =
      decodeFrom (offset + 1) ⟨bits * 64 + (b.toNat - 0x80), next :: rest, byte, seen + 1⟩ done
        bs := by
  simp [decodeFrom, hleast, hgreatest]

theorem decodeFrom_last (hleast : least ≤ b.toNat) (hgreatest : b.toNat ≤ greatest) :
    decodeFrom offset ⟨bits, [(least, greatest)], byte, seen⟩ done (b :: bs) =
      decodeFrom (offset + 1) .idle (Char.ofNat (bits * 64 + (b.toNat - 0x80)) :: done) bs := by
  simp [decodeFrom, hleast, hgreatest]

/-! ## First bytes -/

theorem lead?_two (bits : Nat) (hlow : 0xC2 ≤ bits + 0xC0) (hhigh : bits < 0x20) :
    lead? (bits + 0xC0) = some ⟨bits, [(0x80, 0xBF)]⟩ := by
  unfold lead?
  rw [if_neg (by omega), if_neg (by omega), if_pos (by omega)]
  simp

/-- After the first byte of three, the second may be any that leads to a code point of three
bytes which is no surrogate. -/
theorem lead?_three (bits second : Nat) (hbits : bits < 0x10) (hsecond : second < 0x40)
    (hshort : 0x20 ≤ bits * 64 + second) (hsurrogate : bits = 0xD → second < 0x20) :
    ∃ least greatest, lead? (bits + 0xE0) = some ⟨bits, [(least, greatest), (0x80, 0xBF)]⟩ ∧
      least ≤ second + 0x80 ∧ second + 0x80 ≤ greatest := by
  unfold lead?
  rw [if_neg (by omega), if_neg (by omega), if_neg (by omega)]
  -- two first bytes bound the second one more tightly: one against longer forms than needed, one
  -- against surrogates
  by_cases hzero : bits = 0
  · subst hzero
    exact ⟨0xA0, 0xBF, rfl, by omega, by omega⟩
  by_cases hd : bits = 0xD
  · subst hd
    have := hsurrogate rfl
    exact ⟨0x80, 0x9F, rfl, by omega, by omega⟩
  · rw [if_neg (by omega), if_neg (by omega), if_pos (by omega)]
    exact ⟨0x80, 0xBF, by simp, by omega, by omega⟩

/-- After the first byte of four, the second may be any that leads to a code point of four
bytes. -/
theorem lead?_four (bits second : Nat) (hsecond : second < 0x40)
    (hshort : 0x10 ≤ bits * 64 + second)
    (hlast : bits * 64 + second < 0x110) :
    ∃ least greatest,
      lead? (bits + 0xF0) = some ⟨bits, [(least, greatest), (0x80, 0xBF), (0x80, 0xBF)]⟩ ∧
        least ≤ second + 0x80 ∧ second + 0x80 ≤ greatest := by
  unfold lead?
  rw [if_neg (by omega), if_neg (by omega), if_neg (by omega), if_neg (by omega),
    if_neg (by omega), if_neg (by omega)]
  -- here too: one against longer forms, one against what lies above the last code point
  by_cases hzero : bits = 0
  · subst hzero
    exact ⟨0x90, 0xBF, rfl, by omega, by omega⟩
  by_cases hfour : bits = 4
  · subst hfour
    exact ⟨0x80, 0x8F, rfl, by omega, by omega⟩
  · rw [if_neg (by omega), if_pos (by omega)]
    exact ⟨0x80, 0xBF, by simp, by omega, by omega⟩

/-! ## Characters -/

theorem toNat_ofNat_of_lt {n : Nat} (h : n < 0x100) : (UInt8.ofNat n).toNat = n := by
  rw [UInt8.toNat_ofNat']
  exact Nat.mod_eq_of_lt h

variable {v : Nat}

theorem decodeFrom_one (h : v ≤ 0x7F) :
    decodeFrom offset .idle done (UInt8.ofNat v :: bs) =
      decodeFrom (offset + 1) .idle (Char.ofNat v :: done) bs := by
  apply decodeFrom_single
  rw [toNat_ofNat_of_lt (by omega)]
  exact if_pos (by omega)

theorem decodeFrom_two (hlow : 0x7F < v) (hhigh : v ≤ 0x7FF) :
    decodeFrom offset .idle done
        (UInt8.ofNat (v / 64 % 32 + 192) :: UInt8.ofNat (v % 64 + 128) :: bs) =
      decodeFrom (offset + 2) .idle (Char.ofNat v :: done) bs := by
  have hlead := lead?_two (v / 64 % 32) (by omega) (by omega)
  rw [← toNat_ofNat_of_lt (n := v / 64 % 32 + 192) (by omega)] at hlead
  have hlast := toNat_ofNat_of_lt (n := v % 64 + 128) (by omega)
  rw [decodeFrom_first hlead, decodeFrom_last (by omega) (by omega), hlast,
    show v / 64 % 32 * 64 + (v % 64 + 128 - 128) = v by omega]

theorem decodeFrom_three (hlow : 0x7FF < v) (hhigh : v ≤ 0xFFFF)
    (hvalid : v < 0xD800 ∨ 0xDFFF < v) :
    decodeFrom offset .idle done (UInt8.ofNat (v / 4096 % 16 + 224) ::
        UInt8.ofNat (v / 64 % 64 + 128) :: UInt8.ofNat (v % 64 + 128) :: bs) =
      decodeFrom (offset + 3) .idle (Char.ofNat v :: done) bs := by
  obtain ⟨least, greatest, hlead, hleast, hgreatest⟩ :=
    lead?_three (v / 4096 % 16) (v / 64 % 64) (by omega) (by omega) (by omega) (by omega)
  rw [← toNat_ofNat_of_lt (n := v / 4096 % 16 + 224) (by omega)] at hlead
  have hsecond := toNat_ofNat_of_lt (n := v / 64 % 64 + 128) (by omega)
  have hlast := toNat_ofNat_of_lt (n := v % 64 + 128) (by omega)
  -- the bits of the three bytes are put together to `v` again
  rw [decodeFrom_first hlead, decodeFrom_middle (by omega) (by omega),
    decodeFrom_last (by omega) (by omega), hsecond, hlast,
    show (v / 4096 % 16 * 64 + (v / 64 % 64 + 128 - 128)) * 64 + (v % 64 + 128 - 128) = v by
      omega]

theorem decodeFrom_four (hlow : 0xFFFF < v) (hhigh : v < 0x110000) :
    decodeFrom offset .idle done (UInt8.ofNat (v / 262144 % 8 + 240) ::
        UInt8.ofNat (v / 4096 % 64 + 128) :: UInt8.ofNat (v / 64 % 64 + 128) ::
          UInt8.ofNat (v % 64 + 128) :: bs) =
      decodeFrom (offset + 4) .idle (Char.ofNat v :: done) bs := by
  obtain ⟨least, greatest, hlead, hleast, hgreatest⟩ :=
    lead?_four (v / 262144 % 8) (v / 4096 % 64) (by omega) (by omega) (by omega)
  rw [← toNat_ofNat_of_lt (n := v / 262144 % 8 + 240) (by omega)] at hlead
  have hsecond := toNat_ofNat_of_lt (n := v / 4096 % 64 + 128) (by omega)
  have hthird := toNat_ofNat_of_lt (n := v / 64 % 64 + 128) (by omega)
  have hlast := toNat_ofNat_of_lt (n := v % 64 + 128) (by omega)
  rw [decodeFrom_first hlead, decodeFrom_middle (by omega) (by omega),
    decodeFrom_middle (by omega) (by omega), decodeFrom_last (by omega) (by omega), hsecond,
    hthird, hlast,
    show ((v / 262144 % 8 * 64 + (v / 4096 % 64 + 128 - 128)) * 64 +
      (v / 64 % 64 + 128 - 128)) * 64 + (v % 64 + 128 - 128) = v by omega]

/-- **The bytes of a character are read as that character.** -/
theorem decodeFrom_encodeChar (offset : Nat) (done : List Char) (c : Char) (bs : List UInt8) :
    ∃ offset', decodeFrom offset .idle done (String.utf8EncodeChar c ++ bs) =
      decodeFrom offset' .idle (c :: done) bs := by
  have hvalid : c.val.toNat < 0xD800 ∨ 0xDFFF < c.val.toNat ∧ c.val.toNat < 0x110000 := c.valid
  rw [show c :: done = Char.ofNat c.val.toNat :: done by rw [← Char.toNat, Char.ofNat_toNat]]
  unfold String.utf8EncodeChar
  -- from here on only the code point matters
  generalize c.val.toNat = v at hvalid
  dsimp only
  split
  case isTrue hone => exact ⟨_, decodeFrom_one hone⟩
  case isFalse hone =>
    split
    case isTrue htwo => exact ⟨_, decodeFrom_two (by omega) htwo⟩
    case isFalse htwo =>
      split
      case isTrue hthree => exact ⟨_, decodeFrom_three (by omega) hthree (by omega)⟩
      case isFalse hthree => exact ⟨_, decodeFrom_four (by omega) (by omega)⟩

/-! ## Texts -/

theorem decodeFrom_encode (offset : Nat) (done s : List Char) :
    decodeFrom offset .idle done (encode s) = .ok (done.reverse ++ s) := by
  induction s generalizing offset done with
  | nil => simp [encode, decodeFrom, State.idle]
  | cons c s ih =>
    obtain ⟨offset', h⟩ := decodeFrom_encodeChar offset done c (encode s)
    rw [encode, List.flatMap_cons, ← encode, h, ih, List.reverse_cons, List.append_assoc,
      List.singleton_append]

/-- **What is decoded is what was encoded.** -/
theorem decode_encode (s : List Char) : decode (encode s) = .ok s :=
  decodeFrom_encode 0 [] s

end Typings.Text.Utf8
