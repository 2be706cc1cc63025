/-!
# Strict UTF-8

Decoding of a byte sequence that must be UTF-8 throughout. A sequence that is not is refused at the
first byte that rules it out, and the fault says which bytes belong to the unfinished character
and why it could not be finished.
-/

namespace Sexpr.Text

/-- Why a byte sequence is not UTF-8. -/
inductive Utf8Reason where
  /-- The byte cannot begin a character. -/
  | invalidStart
  /-- The byte after the unfinished character cannot continue it. -/
  | invalidContinuation
  /-- The bytes end within a character. -/
  | unexpectedEnd
deriving DecidableEq, Repr

/-- The reason as it is worded in messages. -/
def Utf8Reason.text : Utf8Reason → String
  | .invalidStart => "invalid start byte"
  | .invalidContinuation => "invalid continuation byte"
  | .unexpectedEnd => "unexpected end of data"

/-- The bytes at offsets `first` to `last`, the first of which is `lead`, are no character. -/
structure Utf8Fault where
  first : Nat
  last : Nat
  lead : Nat
  reason : Utf8Reason
deriving DecidableEq, Repr

/-- The bits of the code point that a first byte carries, and the inclusive bounds of each byte that
has to follow it. The bounds of the second byte leave out longer encodings than needed, surrogates
and numbers that are no code points. -/
def leadByte? (byte : Nat) : Option (Nat × List (Nat × Nat)) :=
  if byte ≤ 0x7F then some (byte, [])
  else if byte < 0xC2 then none
  else if byte ≤ 0xDF then some (byte - 0xC0, [(0x80, 0xBF)])
  else if byte = 0xE0 then some (0, [(0xA0, 0xBF), (0x80, 0xBF)])
  else if byte = 0xED then some (0xD, [(0x80, 0x9F), (0x80, 0xBF)])
  else if byte ≤ 0xEF then some (byte - 0xE0, [(0x80, 0xBF), (0x80, 0xBF)])
  else if byte = 0xF0 then some (0, [(0x90, 0xBF), (0x80, 0xBF), (0x80, 0xBF)])
  else if byte ≤ 0xF3 then some (byte - 0xF0, [(0x80, 0xBF), (0x80, 0xBF), (0x80, 0xBF)])
  else if byte = 0xF4 then some (4, [(0x80, 0x8F), (0x80, 0xBF), (0x80, 0xBF)])
  else none

/-- A character of which some bytes are read: where it began, with which byte, the bits read so far
and the bounds of the bytes it still needs. -/
structure Unfinished where
  first : Nat
  lead : Nat
  bits : Nat
  next : Nat × Nat
  later : List (Nat × Nat)

/-- The fault of an unfinished character that cannot go on at `offset`. -/
def Unfinished.fault (char : Unfinished) (offset : Nat) (reason : Utf8Reason) : Utf8Fault :=
  ⟨char.first, offset - 1, char.lead, reason⟩

/-- Decode the bytes from `offset` on, possibly within a character. -/
def decodeFrom (offset : Nat) : Option Unfinished → List Nat → Except Utf8Fault (List Char)
  | none, [] => .ok []
  | some char, [] => .error (char.fault offset .unexpectedEnd)
  | none, byte :: bytes =>
      match leadByte? byte with
      | none => .error ⟨offset, offset, byte, .invalidStart⟩
      | some (bits, []) => (decodeFrom (offset + 1) none bytes).map (Char.ofNat bits :: ·)
      | some (bits, next :: later) =>
          decodeFrom (offset + 1) (some ⟨offset, byte, bits, next, later⟩) bytes
  | some char, byte :: bytes =>
      if char.next.1 ≤ byte ∧ byte ≤ char.next.2 then
        let bits := 0x40 * char.bits + (byte - 0x80)
        match char.later with
        | [] => (decodeFrom (offset + 1) none bytes).map (Char.ofNat bits :: ·)
        | next :: later =>
            decodeFrom (offset + 1) (some ⟨char.first, char.lead, bits, next, later⟩) bytes
      else .error (char.fault offset .invalidContinuation)

/-- The text that a byte sequence encodes, or its first fault. -/
def decodeUtf8 (bytes : List Nat) : Except Utf8Fault (List Char) :=
  decodeFrom 0 none bytes

end Sexpr.Text
