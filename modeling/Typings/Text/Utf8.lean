/-!
# UTF-8

Decoding bytes into characters. Only the shortest form of each character is accepted,
and no surrogate. A byte sequence that is not UTF-8 is described by the span of its
first defect: a byte that cannot start a character, together with the continuation bytes
that fitted up to the point where decoding stopped.

The span matters because the message about a broken file names it, byte and position. Decoding
counts the bytes that it has taken, so that the position is known where it stops.
-/

namespace Typings.Text.Utf8

/-- Why decoding stopped. -/
inductive Reason where
  | invalidStart
  | invalidContinuation
  | endOfData
  deriving DecidableEq, Repr

/-- The first place where bytes are not UTF-8: `length` bytes from the offset `start` on,
the first of which is `byte`. -/
structure Defect where
  byte : UInt8
  start : Nat
  length : Nat
  reason : Reason
  deriving DecidableEq, Repr

/-- What a first byte promises: the bits it contributes, and for each byte to follow the
least and the greatest value it may have. -/
structure Lead where
  bits : Nat
  follow : List (Nat × Nat)

/-- The promise of a first byte, if it can start a character. The bounds of the second
byte exclude overlong forms, surrogates and code points above U+10FFFF. -/
def lead? (b : Nat) : Option Lead :=
  let any : Nat × Nat := (0x80, 0xBF)
  if b < 0x80 then some ⟨b, []⟩
  else if b < 0xC2 then none
  else if b < 0xE0 then some ⟨b - 0xC0, [any]⟩
  else if b = 0xE0 then some ⟨0, [(0xA0, 0xBF), any]⟩
  else if b = 0xED then some ⟨0xD, [(0x80, 0x9F), any]⟩
  else if b < 0xF0 then some ⟨b - 0xE0, [any, any]⟩
  else if b = 0xF0 then some ⟨0, [(0x90, 0xBF), any, any]⟩
  else if b < 0xF4 then some ⟨b - 0xF0, [any, any, any]⟩
  else if b = 0xF4 then some ⟨4, [(0x80, 0x8F), any, any]⟩
  else none

/-- The decoder between two bytes: `code` collects the bits of the character under way,
`pending` holds the bounds of the bytes still to come, and `first` and `seen` say with
which byte the character started and how many of its bytes have been read. -/
structure State where
  code : Nat
  pending : List (Nat × Nat)
  first : UInt8
  seen : Nat

/-- The decoder between two characters. -/
def State.idle : State := ⟨0, [], 0, 0⟩

/-- Decode the bytes from `offset` on. The characters read so far are in `done`, last
one first. -/
def decodeFrom (offset : Nat) (state : State) (done : List Char) :
    List UInt8 → Except Defect (List Char)
  | [] =>
    if state.pending.isEmpty then .ok done.reverse
    else .error ⟨state.first, offset - state.seen, state.seen, .endOfData⟩
  | b :: bs =>
    match state.pending with
    | [] =>
      match lead? b.toNat with
      | none => .error ⟨b, offset, 1, .invalidStart⟩
      | some ⟨bits, []⟩ => decodeFrom (offset + 1) .idle (Char.ofNat bits :: done) bs
      | some ⟨bits, follow⟩ => decodeFrom (offset + 1) ⟨bits, follow, b, 1⟩ done bs
    | (least, greatest) :: rest =>
      if least ≤ b.toNat && b.toNat ≤ greatest then
        let code := state.code * 64 + (b.toNat - 0x80)
        if rest.isEmpty then decodeFrom (offset + 1) .idle (Char.ofNat code :: done) bs
        else decodeFrom (offset + 1) ⟨code, rest, state.first, state.seen + 1⟩ done bs
      else .error ⟨state.first, offset - state.seen, state.seen, .invalidContinuation⟩

/-- The characters that `bytes` encode. -/
def decode (bytes : List UInt8) : Except Defect (List Char) := decodeFrom 0 .idle [] bytes

/-- The bytes of a text. -/
def encode (s : List Char) : List UInt8 := s.flatMap String.utf8EncodeChar

/-- The reason in words. -/
def Reason.message : Reason → String
  | .invalidStart => "invalid start byte"
  | .invalidContinuation => "invalid continuation byte"
  | .endOfData => "unexpected end of data"

end Typings.Text.Utf8
